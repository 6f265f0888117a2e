import QueueWorkflows.Engine.System

/-! The recovery statements: what they do with a `running` row, and which status its
parent run must have for that to be of use. -/

namespace QueueWorkflows

open Transaction (Reach follow)

/-! ### Lapsed leases -/

section Leases

variable {db : Db} {job : NodeJob} {run : RunRow}

theorem reclaimed_status (parent : db.run? job.runId = some run) :
    (NodeQueue.reclaimed db job).status =
      if run.status = .running then .queued else .cancelled := by
  by_cases running : run.status = .running
  · simp [NodeQueue.reclaimed, parent, running, NodeQueue.released]
  · simp [NodeQueue.reclaimed, parent, running]

/-- The reclaim moves a lapsed row under a parent that is not terminal back to `queued`
exactly if that parent is `running`; under a `queued` parent it cancels the row. -/
theorem lapsed_row_requeued_iff (present : job ∈ db.jobs.rows) (running : job.status = .running)
    (lapsed : NodeQueue.leaseLapsed db job = true) (parent : db.run? job.runId = some run)
    (alive : run.status.terminal = false) :
    ∃ rows after, NodeQueue.reclaimExpiredLeases db = .ok (rows, after) ∧
      ∃ new, after.job? job.id = some new ∧
        (new.status = .queued ↔ run.status = .running) ∧
        (new.status = .cancelled ↔ run.status = .queued) := by
  refine ⟨_, _, rfl, NodeQueue.reclaimed db job, ?_, ?_⟩
  · have kept : (NodeQueue.reclaimed db job).id = job.id :=
      congrArg Prod.fst (NodeQueue.reclaimed_key db job)
    rw [← kept]
    apply Db.job?_of_mem
    exact List.mem_map.mpr ⟨job, present, by simp [running, lapsed, parent]⟩
  · rw [reclaimed_status parent]
    cases status : run.status <;> simp_all [RunStatus.terminal]

end Leases

/-- Worker `a` claims row 1, and its lease lapses. -/
def Sample.lapsed : List Label :=
  Sample.expanded ++ [.prioritize 1, .claimCpu { host := "a" } Sample.host false,
    .clock (seconds 601)]

theorem sample_lapsed_row_requeued : ∃ rows after,
    NodeQueue.reclaimExpiredLeases (Sample.after Sample.lapsed).store = .ok (rows, after) ∧
      (after.job? 1).map NodeJob.status = some .queued := by
  have found : ((Sample.after Sample.lapsed).store.job? 1).any (fun job =>
      job.status == .running && NodeQueue.leaseLapsed (Sample.after Sample.lapsed).store job &&
        ((Sample.after Sample.lapsed).store.run? job.runId).any fun run =>
          run.status == .running) = true := by decide
  obtain ⟨job, row, facts⟩ := (Option.any_eq_true _ _).mp found
  simp only [Bool.and_eq_true, beq_iff_eq] at facts
  obtain ⟨⟨running, lapsed⟩, parent⟩ := facts
  obtain ⟨run, owner, active⟩ := (Option.any_eq_true _ _).mp parent
  have active : run.status = .running := by simpa using active
  obtain ⟨present, named⟩ := Db.job?_mem row
  obtain ⟨rows, after, done, new, moved, queued, -⟩ :=
    lapsed_row_requeued_iff present running lapsed owner (by rw [active]; rfl)
  rw [named] at moved
  exact ⟨rows, after, done, by rw [moved, Option.map_some, queued.mpr active]⟩

/-- Worker `a` runs row 1 and beats while the orchestrator restarts: the run goes back
to `queued`, the row stays with its worker, and the tick finds nothing to expand. -/
def Sample.restarted : List Label :=
  List.append Sample.expanded [.prioritize 1, .claimCpu { host := "a" } Sample.host false,
    .heartbeat { hostLabel := "a", queue := "cpu", project := "", lastSeen := 0 },
    .reenqueueRuns, .reclaimAllRunning, .expand Sample.host 2, .advance 2, .advance 2,
    .clock (seconds 601)]

/-- When the lease of that row lapses, the reclaim cancels it. -/
theorem restarted_row_cancelled : ∃ sys after : Sys,
    Reach (step Sample.config) anyStep Sys.empty sys ∧
      (sys.store.run? "r").map RunRow.status = some .queued ∧
      (sys.store.job? 1).any (fun job => job.status == .running &&
        NodeQueue.leaseLapsed sys.store job && job.runId == "r") = true ∧
      step Sample.config sys .reclaimExpired = some after ∧
      (after.store.job? 1).map NodeJob.status = some .cancelled := by
  have reached := Sample.reach_after Sample.restarted (by decide)
  have wrote : ((step Sample.config (Sample.after Sample.restarted) .reclaimExpired).map
      fun after => (after.store.job? 1).map NodeJob.status) = some (some .cancelled) := by decide
  obtain ⟨after, stepped, status⟩ := Option.map_eq_some_iff.mp wrote
  exact ⟨_, after, reached, by decide, by decide, stepped, status⟩

/-! ### Rows without a run to go on with -/

/-- The statements that take `running` rows back. -/
inductive Recovery where
  | reclaimExpiredLeases
  | reclaimAllRunningForResume (project : String)
  | requeueJobForRetry (jobId : Nat)
  | requeueRunningForWorker (hostLabel : String) (queue : Queue) (project : String)

namespace Recovery

def run : Recovery → Txn Unit
  | .reclaimExpiredLeases => NodeQueue.reclaimExpiredLeases.map fun _ => ()
  | .reclaimAllRunningForResume project =>
    (NodeQueue.reclaimAllRunningForResume project).map fun _ => ()
  | .requeueJobForRetry jobId => (NodeQueue.requeueJobForRetry jobId).map fun _ => ()
  | .requeueRunningForWorker hostLabel queue project =>
    (NodeQueue.requeueRunningForWorker hostLabel queue project).map fun _ => ()

/-- The `running` rows in the scope of the statement. -/
def scope (db : Db) (job : NodeJob) : Recovery → Bool
  | .reclaimExpiredLeases => NodeQueue.leaseLapsed db job && (db.run? job.runId).isSome
  | .reclaimAllRunningForResume project =>
    job.project == project && !NodeQueue.freshHeartbeat db job
  | .requeueJobForRetry jobId => job.id == jobId
  | .requeueRunningForWorker hostLabel queue project =>
    job.claimedBy == some hostLabel && job.queue == queue && job.project == project

/-- The parent run is there and not over. -/
def parentOpen (db : Db) (job : NodeJob) : Bool :=
  (db.run? job.runId).any fun run => !run.status.terminal

/-- Every row the statement puts in `queued` has a run to go on with. -/
def NoGhosts (recovery : Recovery) (db : Db) : Prop :=
  ∀ after, recovery.run db = .ok ((), after) →
    ∀ job ∈ after.jobs.rows, job ∉ db.jobs.rows → job.status = .queued →
      parentOpen after job = true

/-- What the statement makes of a row in its scope. -/
def moved (db : Db) : Recovery → NodeJob → NodeJob
  | .reclaimExpiredLeases => NodeQueue.reclaimed db
  | .requeueJobForRetry _ => fun job =>
    { NodeQueue.released job with watchdogRetries := job.watchdogRetries + 1 }
  | _ => NodeQueue.released

theorem moved_key (recovery : Recovery) (db : Db) (job : NodeJob) :
    (recovery.moved db job).key = job.key := by
  cases recovery with
  | reclaimExpiredLeases => exact NodeQueue.reclaimed_key db job
  | _ => rfl

/-- Each statement is one update of the rows in its scope. -/
theorem run_rows (recovery : Recovery) (db : Db) :
    ∃ after, recovery.run db = .ok ((), after) ∧ after.runs = db.runs ∧
      after.jobs.rows = db.jobs.rows.map fun job =>
        if job.status == .running && recovery.scope db job then recovery.moved db job else job := by
  cases recovery with
  | reclaimExpiredLeases =>
    refine ⟨_, rfl, rfl, List.map_congr_left fun job _ => ?_⟩
    simp only [scope, Bool.and_assoc]
    rfl
  | reclaimAllRunningForResume project =>
    refine ⟨_, rfl, rfl, List.map_congr_left fun job _ => ?_⟩
    simp only [scope, Bool.and_assoc]
    rfl
  | requeueJobForRetry jobId =>
    refine ⟨_, rfl, rfl, List.map_congr_left fun job _ => ?_⟩
    simp only [scope, Bool.and_comm]
    rfl
  | requeueRunningForWorker hostLabel queue project =>
    refine ⟨_, rfl, rfl, List.map_congr_left fun job _ => ?_⟩
    simp only [scope, Bool.and_assoc]
    rfl

theorem moved_queued {recovery : Recovery} (db : Db) (job : NodeJob)
    (blind : recovery ≠ .reclaimExpiredLeases) : (recovery.moved db job).status = .queued := by
  cases recovery with
  | reclaimExpiredLeases => exact absurd rfl blind
  | _ => rfl

theorem parentOpen_congr {db after : Db} {old new : NodeJob} (runs : after.runs = db.runs)
    (key : new.key = old.key) : parentOpen after new = parentOpen db old := by
  have same : new.runId = old.runId := congrArg (·.2.1) key
  unfold parentOpen Db.run?
  rw [runs, same]

/-- Only the lease reclaim looks at the parent. -/
theorem NoGhosts.parents {recovery : Recovery} {db : Db} (none : recovery.NoGhosts db)
    (blind : recovery ≠ .reclaimExpiredLeases) :
    ∀ job ∈ db.jobs.rows, job.status = .running → recovery.scope db job = true →
      parentOpen db job = true := by
  intro job member running inside
  obtain ⟨after, done, runs, rows⟩ := recovery.run_rows db
  have queued := moved_queued db job blind
  have key := recovery.moved_key db job
  rw [← parentOpen_congr runs key]
  apply none after done _ _ _ queued
  · rw [rows]
    exact List.mem_map.mpr ⟨job, member, by simp [running, inside]⟩
  · intro present
    rw [Db.eq_of_id present member (congrArg Prod.fst key), running] at queued
    cases queued

end Recovery

/-- A recovery statement leaves no row in `queued` under a run that is over exactly if
it is the lease reclaim, or every `running` row in its scope has an open parent. -/
theorem recovery_leaves_no_ghost_iff (recovery : Recovery) (db : Db) :
    recovery.NoGhosts db ↔ recovery = .reclaimExpiredLeases ∨
      ∀ job ∈ db.jobs.rows, job.status = .running → recovery.scope db job = true →
        Recovery.parentOpen db job = true := by
  constructor
  · intro none
    by_cases guarded : recovery = .reclaimExpiredLeases
    · exact .inl guarded
    · exact .inr (none.parents guarded)
  · intro either after done job member new queued
    obtain ⟨same, ran, runs, rows⟩ := recovery.run_rows db
    cases done.symm.trans ran
    rw [rows] at member
    obtain ⟨old, present, rfl⟩ := List.mem_map.mp member
    by_cases taken : (old.status == .running && recovery.scope db old) = true
    · rw [if_pos taken] at queued ⊢
      rw [Recovery.parentOpen_congr runs (recovery.moved_key db old)]
      rw [Bool.and_eq_true, beq_iff_eq] at taken
      rcases either with rfl | open_
      · have inside := taken.2
        simp only [Recovery.scope, Bool.and_eq_true] at inside
        obtain ⟨run, parent⟩ := Option.isSome_iff_exists.mp inside.2
        have status : (NodeQueue.reclaimed db old).status = .queued := queued
        rw [reclaimed_status parent] at status
        by_cases running : run.status = .running
        · simp [Recovery.parentOpen, parent, running, RunStatus.terminal]
        · rw [if_neg running] at status
          cases status
      · exact open_ old present taken.1 taken.2
    · rw [if_neg taken] at new
      exact absurd present new

/-- The run is cancelled while worker `a` runs row 1. -/
def Sample.orphaned : List Label :=
  List.append Sample.expanded
    [.prioritize 1, .claimCpu { host := "a" } Sample.host false, .cancelRun "r"]

/-- A hard stop of that worker puts the row back in `queued`, where no claim takes it. -/
theorem orphaned_row_requeued : ∃ sys : Sys, Reach (step Sample.config) anyStep Sys.empty sys ∧
    ¬ (Recovery.requeueRunningForWorker "a" .cpu "").NoGhosts sys.store := by
  refine ⟨_, Sample.reach_after Sample.orphaned (by decide), fun none => ?_⟩
  have parents := none.parents (by simp)
  have ghost : (Sample.after Sample.orphaned).store.jobs.rows.any (fun job =>
      job.status == .running &&
        (Recovery.requeueRunningForWorker "a" .cpu "").scope (Sample.after Sample.orphaned).store job &&
        !Recovery.parentOpen (Sample.after Sample.orphaned).store job) = true := by decide
  obtain ⟨job, member, facts⟩ := List.any_eq_true.mp ghost
  simp only [Bool.and_eq_true, beq_iff_eq, Bool.not_eq_true'] at facts
  have open_ := parents job member facts.1.1 facts.1.2
  rw [facts.2] at open_
  cases open_

end QueueWorkflows
