import QueueWorkflows.Engine.FleetSweeps

/-! Workers that went silent while they own running rows. The sweep flags such a worker and
goes by the flag's age when it finds the worker again; a heartbeat takes the flag off. -/

namespace QueueWorkflows

open Episodes (Notice Once Raised raised_snoc raised_flagged once_flagged once_begins)

/-- Silent since before the instant, with running rows of its own. -/
def SilentOwner (db : Db) (project : String) (since : Time) (beat : WorkerHeartbeat) : Prop :=
  beat.project = project ∧ beat.lastSeen < since ∧ NodeQueue.heldBy db beat ≠ []

/-- The sweep's window begins here. -/
def staleSince (db : Db) (staleAfterS : Int) : Time :=
  db.clock - seconds (max 1 staleAfterS)

/-- The sweep flags the worker. -/
def Overdue (db : Db) (project : String) (since : Time) (beat : WorkerHeartbeat) : Prop :=
  SilentOwner db project since beat ∧ ∀ flagged ∈ beat.lastFlaggedDeadAt, flagged < since

section Workers

variable {staleAfterS : Int} {project : String} {db after : Db}
  {rows : List (WorkerHeartbeat × Nat)} {statement : FleetStatement} {report : Report}

theorem flagStaleWorkers_cases
    (done : NodeQueue.flagStaleWorkers staleAfterS project db = .ok (rows, after)) :
    ∃ stale : WorkerHeartbeat → Bool,
      (∀ beat, stale beat = true ↔ Overdue db project (staleSince db staleAfterS) beat) ∧
      rows = (db.heartbeats.filter stale).map (fun beat =>
        (beat, (NodeQueue.heldBy db beat).length)) ∧
      after.heartbeats = db.heartbeats.map fun beat =>
        if stale beat then { beat with lastFlaggedDeadAt := some db.clock } else beat := by
  cases done
  refine ⟨_, fun beat => ?_, rfl, rfl⟩
  simp only [Bool.and_eq_true, beq_iff_eq, decide_eq_true_eq, Bool.not_eq_true',
    List.isEmpty_eq_false_iff, Overdue, SilentOwner, staleSince]
  cases beat.lastFlaggedDeadAt with
  | none => simp [and_assoc]
  | some flagged =>
    simp
    tauto

/-- What a statement other than the sweep does to the rows of the workers. -/
inductive Watches (db after : Db) : Option (String × String × String) → Prop
  | kept (age : WorkerHeartbeat → WorkerHeartbeat)
      (rows : after.heartbeats = db.heartbeats.map age)
      (same : ∀ beat, (age beat).key = beat.key ∧
        (age beat).lastFlaggedDeadAt = beat.lastFlaggedDeadAt) : Watches db after none
  | beaten (row : WorkerHeartbeat)
      (rows : after.heartbeats = (db.heartbeats.filter fun other => other.key ≠ row.key) ++
        [{ row with lastSeen := db.clock, lastFlaggedDeadAt := none }]) :
      Watches db after (some row.key)

theorem Watches.of_same (same : after.heartbeats = db.heartbeats) : Watches db after none :=
  .kept id (by rw [List.map_id, same]) fun _ => ⟨rfl, rfl⟩

theorem heartbeats_of_operation {operation : NodeQueue.Operation}
    (done : operation.run db = .ok ((), after)) : after.heartbeats = db.heartbeats := by
  have claimed : ∀ {claim queue capability rank row},
      NodeQueue.claimNext claim queue capability rank db = .ok (row, after) →
        after.heartbeats = db.heartbeats := by
    intro claim queue capability rank row done
    unfold NodeQueue.claimNext at done
    split at done <;> cases done <;> rfl
  cases operation with
  | claimCpu claim =>
    dsimp only [NodeQueue.Operation.run] at done
    obtain ⟨row, done, -⟩ := Txn.map_cases done
    exact claimed done
  | claimGpu claim gpu =>
    dsimp only [NodeQueue.Operation.run] at done
    obtain ⟨row, done, -⟩ := Txn.map_cases done
    exact claimed done
  | _ =>
    cases done
    rfl

theorem heartbeats_of_insertJob {row : Nat → Time → NodeJob} {id : Nat}
    (done : NodeQueue.insertJob row db = .ok (id, after)) : after.heartbeats = db.heartbeats := by
  simp only [NodeQueue.insertJob] at done
  split at done
  · cases done
  · split at done
    · cases done
    · cases done
      rfl

/-- The sweep itself, or a statement that reports no worker. -/
theorem FleetStatement.watches (done : statement.run db = .ok (report, after)) :
    (∃ staleAfterS project, statement = .flagStaleWorkers staleAfterS project ∧
      NodeQueue.flagStaleWorkers staleAfterS project db = .ok (report.dead, after)) ∨
    (∀ staleAfterS project, statement ≠ .flagStaleWorkers staleAfterS project) ∧
      report.dead = [] ∧ Watches db after statement.beats := by
  cases statement with
  | flagStaleWorkers staleAfterS project =>
    dsimp only [run] at done
    obtain ⟨rows, ran, rfl⟩ := Txn.map_cases done
    exact .inl ⟨staleAfterS, project, rfl, ran⟩
  | onRows operation =>
    dsimp only [run] at done
    obtain ⟨_, ran, rfl⟩ := Txn.map_cases done
    exact .inr ⟨by simp, rfl, .of_same (heartbeats_of_operation ran)⟩
  | enqueueNodeJob new =>
    dsimp only [run] at done
    obtain ⟨_, ran, rfl⟩ := Txn.map_cases done
    unfold NodeQueue.enqueueNodeJob at ran
    split at ran
    · cases ran
    · exact .inr ⟨by simp, rfl, .of_same (heartbeats_of_insertJob ran)⟩
  | insertSkippedJob =>
    dsimp only [run] at done
    obtain ⟨_, ran, rfl⟩ := Txn.map_cases done
    exact .inr ⟨by simp, rfl, .of_same (heartbeats_of_insertJob ran)⟩
  | insertRun row =>
    dsimp only [run] at done
    obtain ⟨_, ran, rfl⟩ := Txn.map_cases done
    unfold QueueWorkflows.insertRun at ran
    split at ran
    · cases ran
      exact .inr ⟨by simp, rfl, .of_same rfl⟩
    · cases ran
  | deleteNonTerminalJobs | cancelRun | updateRun | flagUnassignableGpuJobs =>
    cases done
    exact .inr ⟨by simp, rfl, .of_same rfl⟩
  | upsertWorkerHeartbeat row =>
    cases done
    refine .inr ⟨by simp, rfl, .beaten row ?_⟩
    simp only [WorkerHeartbeat.key, ne_eq, Prod.mk.injEq]
    congr 1
    refine List.filter_congr fun other _ => ?_
    rw [Bool.eq_iff_iff]
    simp [or_assoc]
  | clearWorkerCurrentModel hostLabel queue project =>
    cases done
    refine .inr ⟨by simp, rfl, .kept _ rfl fun beat => ?_⟩
    split <;> exact ⟨rfl, rfl⟩

end Workers

namespace Fleet

/-- A sweep comes back to no worker whose flag is older than its window, as long as that
worker is silent and owns running rows. -/
def Quiet (fleet : Fleet) : Move → Prop
  | .statement (.flagStaleWorkers staleAfterS project) =>
    ∀ beat ∈ fleet.db.heartbeats, SilentOwner fleet.db project (staleSince fleet.db staleAfterS) beat →
      ∀ flagged ∈ beat.lastFlaggedDeadAt, staleSince fleet.db staleAfterS ≤ flagged
  | _ => True

/-- A silent worker that has not been flagged since its last heartbeat is returned. -/
def Reflags (fleet : Fleet) : Prop :=
  ∀ staleAfterS project rows db,
    NodeQueue.flagStaleWorkers staleAfterS project fleet.db = .ok (rows, db) →
    ∀ beat ∈ fleet.db.heartbeats, ¬ Raised beat.key fleet.log →
      SilentOwner fleet.db project (staleSince fleet.db staleAfterS) beat → beat ∈ rows.map Prod.fst

/-- One row a worker, and the row has a flag exactly if the worker has been returned since
its last heartbeat. -/
structure Watched (fleet : Fleet) : Prop where
  keys : (fleet.db.heartbeats.map WorkerHeartbeat.key).Nodup
  flagged : ∀ beat ∈ fleet.db.heartbeats,
    beat.lastFlaggedDeadAt.isSome = true ↔ Raised beat.key fleet.log

section Watch

variable {fleet next : Fleet} {move : Move} {moves : List Move} {staleAfterS : Int}
  {project : String} {rows : List (WorkerHeartbeat × Nat)} {beats : Option (String × String × String)}

/-- Two rows of one worker are the same row. -/
theorem Watched.same (watched : Watched fleet) {beat other : WorkerHeartbeat}
    (present : beat ∈ fleet.db.heartbeats) (listed : other ∈ fleet.db.heartbeats)
    (key : beat.key = other.key) : beat = other :=
  List.inj_on_of_nodup_map watched.keys present listed key

theorem Watched.of_watches (watched : Watched fleet) (watches : Watches fleet.db next.db beats)
    (log : next.log = fleet.log ++ beats.toList.map .begins) :
    Watched next ∧ (Once next.log ↔ Once fleet.log) := by
  cases watches with
  | kept age rows same =>
    have kept : next.log = fleet.log := by simp [log]
    rw [kept]
    refine ⟨⟨?_, ?_⟩, Iff.rfl⟩
    · have key : WorkerHeartbeat.key ∘ age = WorkerHeartbeat.key := funext fun beat => (same beat).1
      rw [rows, List.map_map, key]
      exact watched.keys
    · intro beat member
      rw [rows] at member
      obtain ⟨old, present, rfl⟩ := List.mem_map.mp member
      rw [(same old).1, (same old).2, kept]
      exact watched.flagged old present
  | beaten row rows =>
    have begun : next.log = fleet.log ++ [.begins row.key] := by simp [log]
    rw [begun]
    refine ⟨⟨?_, ?_⟩, once_begins⟩
    · rw [rows, List.map_append, List.nodup_append]
      refine ⟨(List.filter_sublist.map _).nodup watched.keys, List.nodup_singleton _, ?_⟩
      rintro key listed _ member rfl
      obtain ⟨other, kept, rfl⟩ := List.mem_map.mp listed
      rw [List.map_singleton, List.mem_singleton] at member
      exact of_decide_eq_true (List.mem_filter.mp kept).2 member
    · intro beat member
      rw [rows] at member
      rw [begun, raised_snoc]
      rcases List.mem_append.mp member with old | new
      · obtain ⟨present, other⟩ := List.mem_filter.mp old
        have apart : row.key ≠ beat.key := fun same => of_decide_eq_true other same.symm
        simp [watched.flagged beat present, apart]
      · rw [List.mem_singleton.mp new]
        simp [WorkerHeartbeat.key]

theorem Watched.swept (watched : Watched fleet)
    (done : NodeQueue.flagStaleWorkers staleAfterS project fleet.db = .ok (rows, next.db))
    (log : next.log = fleet.log ++ rows.map fun dead => .flagged dead.1.key) :
    Watched next ∧ (Once next.log ↔ Once fleet.log ∧
      Quiet fleet (.statement (.flagStaleWorkers staleAfterS project))) := by
  obtain ⟨stale, exactly, rfl, after⟩ := flagStaleWorkers_cases done
  have keys : next.log = fleet.log ++
      ((fleet.db.heartbeats.filter stale).map WorkerHeartbeat.key).map .flagged := by
    rw [log, List.map_map, List.map_map]
    rfl
  have returned : ∀ beat ∈ fleet.db.heartbeats,
      beat.key ∈ (fleet.db.heartbeats.filter stale).map WorkerHeartbeat.key ↔ stale beat = true := by
    intro beat present
    rw [List.mem_map]
    constructor
    · rintro ⟨other, listed, key⟩
      obtain ⟨listed, flags⟩ := List.mem_filter.mp listed
      exact watched.same listed present key ▸ flags
    · exact fun flags => ⟨beat, List.mem_filter.mpr ⟨present, flags⟩, rfl⟩
  refine ⟨⟨?_, ?_⟩, ?_⟩
  · have same : (next.db.heartbeats.map WorkerHeartbeat.key) =
        fleet.db.heartbeats.map WorkerHeartbeat.key := by
      rw [after, List.map_map]
      refine List.map_congr_left fun beat _ => ?_
      rw [Function.comp_apply]
      split <;> rfl
    exact same ▸ watched.keys
  · intro beat member
    rw [after] at member
    obtain ⟨old, present, rfl⟩ := List.mem_map.mp member
    rw [keys]
    cases flags : stale old with
    | true =>
      have listed := (returned old present).mpr flags
      simp only [if_true, Option.isSome_some, raised_flagged, true_iff]
      exact .inl listed
    | false =>
      have unlisted := mt (returned old present).mp (by simp [flags])
      simp only [Bool.false_eq_true, if_false, raised_flagged, watched.flagged old present, unlisted,
        false_or]
  · rw [keys, once_flagged]
    constructor
    · rintro ⟨once, -, apart⟩
      refine ⟨once, fun beat present silent flagged set => ?_⟩
      by_contra early
      have old : ∀ other ∈ beat.lastFlaggedDeadAt,
          other < staleSince fleet.db staleAfterS := by
        intro other same
        rw [Option.mem_unique same set]
        exact not_le.mp early
      have listed := (returned beat present).mpr ((exactly beat).mpr ⟨silent, old⟩)
      refine apart beat.key listed ((watched.flagged beat present).mp ?_)
      exact Option.isSome_iff_exists.mpr ⟨flagged, set⟩
    · rintro ⟨once, quiet⟩
      refine ⟨once, (List.filter_sublist.map _).nodup watched.keys, ?_⟩
      intro key listed raised
      obtain ⟨beat, member, rfl⟩ := List.mem_map.mp listed
      obtain ⟨present, flags⟩ := List.mem_filter.mp member
      obtain ⟨silent, old⟩ := (exactly beat).mp flags
      obtain ⟨flagged, set⟩ := Option.isSome_iff_exists.mp ((watched.flagged beat present).mpr raised)
      exact absurd (old flagged set) (not_lt.mpr (quiet beat present silent flagged set))

/-- A worker that has no flag is returned as soon as it is silent. -/
theorem Watched.reflags (watched : Watched fleet) : Reflags fleet := by
  intro staleAfterS project rows db done beat present unraised silent
  obtain ⟨stale, exactly, rfl, -⟩ := flagStaleWorkers_cases done
  have unset : beat.lastFlaggedDeadAt = none := by
    rw [← Option.not_isSome_iff_eq_none, watched.flagged beat present]
    exact unraised
  have flags : stale beat = true := (exactly beat).mpr ⟨silent, by simp [unset]⟩
  rw [List.map_map]
  exact List.mem_map.mpr ⟨beat, List.mem_filter.mpr ⟨present, flags⟩, rfl⟩

theorem quiet_of_ne {statement : FleetStatement}
    (other : ∀ staleAfterS project, statement ≠ .flagStaleWorkers staleAfterS project) :
    Quiet fleet (.statement statement) := by
  cases statement with
  | flagStaleWorkers staleAfterS project => exact absurd rfl (other staleAfterS project)
  | _ => trivial

/-- One move keeps the rows in step with the log, and is one flag too many exactly if it is
a sweep that comes back to a worker. -/
theorem Watched.step (watched : Watched fleet) (move : Move) :
    Watched (fleet.step move) ∧
      (Once fleet.log → (Once (fleet.step move).log ↔ Quiet fleet move)) := by
  cases move with
  | clock now => exact ⟨⟨watched.keys, watched.flagged⟩, fun once => ⟨fun _ => trivial, fun _ => once⟩⟩
  | statement statement =>
    cases ran : statement.run fleet.db with
    | error error =>
      have same : fleet.step (.statement statement) = fleet := by simp only [Fleet.step, ran]
      have quiet : Quiet fleet (.statement statement) := by
        refine quiet_of_ne ?_
        rintro staleAfterS project rfl
        cases ran
      rw [same]
      exact ⟨watched, fun once => ⟨fun _ => quiet, fun _ => once⟩⟩
    | ok outcome =>
      obtain ⟨report, db⟩ := outcome
      have stepped : (fleet.step (.statement statement)).db = db ∧
          (fleet.step (.statement statement)).log = fleet.log ++
            statement.beats.toList.map .begins ++ report.dead.map fun dead => .flagged dead.1.key := by
        simp only [Fleet.step, ran, and_self]
      obtain ⟨rfl, log⟩ := stepped
      rcases statement.watches ran with ⟨staleAfterS, project, rfl, swept⟩ | ⟨other, none, watches⟩
      · obtain ⟨goesOn, exactly⟩ := watched.swept swept (by simpa [FleetStatement.beats] using log)
        exact ⟨goesOn, fun once => exactly.trans (and_iff_right once)⟩
      · obtain ⟨goesOn, exactly⟩ := watched.of_watches watches (by simpa [none] using log)
        exact ⟨goesOn, fun once => ⟨fun _ => quiet_of_ne other, fun _ => exactly.mpr once⟩⟩

theorem watched_after (moves : List Move) : Watched (after moves) := by
  induction moves using List.reverseRecOn with
  | nil => exact ⟨List.nodup_nil, fun beat member => (by cases member)⟩
  | append_singleton moves move ih =>
    unfold after at ih ⊢
    rw [History.after_snoc]
    exact (ih.step move).1

/-- **One flag in an episode.** A silent worker that has not been flagged since its last
heartbeat is always returned. It is returned at most once between two of its heartbeats
exactly if no sweep comes at a time when its flag is older than the window of that sweep. -/
theorem flagged_once_iff (moves : List Move) :
    (∀ early, early <+: moves → Once (after early).log ∧ Reflags (after early)) ↔
      ∀ early move, early ++ [move] <+: moves → Quiet (after early) move := by
  have exactly : ∀ fleet move, Once fleet.log ∧ Watched fleet →
      (Once (fleet.step move).log ∧ Watched (fleet.step move) ↔ Quiet fleet move) := by
    rintro fleet move ⟨once, watched⟩
    obtain ⟨goesOn, quiet⟩ := watched.step move
    rw [and_iff_left goesOn]
    exact quiet once
  have begins : Once empty.log ∧ Watched empty :=
    ⟨Episodes.once_nil, watched_after []⟩
  have always := @History.always_iff _ _ Fleet.step empty moves
    (fun fleet => Once fleet.log ∧ Watched fleet) Quiet begins exactly
  rw [show (∀ early move, early ++ [move] <+: moves → Quiet (after early) move) ↔ _ from always.symm]
  constructor
  · exact fun right early listed => ⟨(right early listed).1, watched_after early⟩
  · exact fun right early listed => ⟨(right early listed).1, (right early listed).2.reflags⟩

/-! ### Samples -/

/-- The small machine claims a row and goes silent; the window of the sweeps is a minute. -/
def Sample.silence : List Move :=
  [.statement (.insertRun Sample.run),
    .statement (.enqueueNodeJob { Sample.render with requiredModel := none }),
    .statement (.upsertWorkerHeartbeat Sample.small),
    .statement (.onRows (.claimGpu { host := "small" } {})),
    .clock (seconds 61), .statement (.flagStaleWorkers 60 ""),
    .clock (seconds 122), .statement (.flagStaleWorkers 60 "")]

/-- Two sweeps that are more than a minute apart both return the worker, which has been
silent all the time. -/
theorem silent_worker_flagged_twice :
    (after Sample.silence).log = [.begins Sample.small.key, .flagged Sample.small.key,
      .flagged Sample.small.key] ∧ ¬ Once (after Sample.silence).log := by
  have log : (after Sample.silence).log = [.begins Sample.small.key, .flagged Sample.small.key,
      .flagged Sample.small.key] := by
    decide +kernel
  refine ⟨log, fun once => ?_⟩
  have twice := once Sample.small.key [.flagged Sample.small.key, .flagged Sample.small.key]
    ⟨[.begins Sample.small.key], [], by rw [log]; rfl⟩ (by decide +kernel)
  revert twice
  decide +kernel

end Watch

end Fleet

end QueueWorkflows
