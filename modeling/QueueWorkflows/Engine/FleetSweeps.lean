import QueueWorkflows.Base.Episodes
import QueueWorkflows.Base.History
import QueueWorkflows.Engine.Broker
import QueueWorkflows.Engine.TerminalRows

/-! The two sweeps that judge the fleet by its heartbeats: one flags the workers that went
silent while they own a running row, the other the queued GPU rows that no live machine can
hold. Both set a column that other statements clear, and report what they have flagged. -/

namespace QueueWorkflows

open Episodes (Notice)
open Relational (Table)

def WorkerHeartbeat.key (beat : WorkerHeartbeat) : String × String × String :=
  (beat.hostLabel, beat.queue, beat.project)

/-- A statement of any client on the tables that the sweeps read. -/
inductive FleetStatement where
  | onRows (operation : NodeQueue.Operation)
  | enqueueNodeJob (new : NodeQueue.NewJob)
  | insertSkippedJob (runId nodeId : String) (pipelineName : Option String) (project : String)
  | deleteNonTerminalJobs (runId : String)
  | insertRun (run : RunRow)
  | cancelRun (runId : String)
  | updateRun (runId : String) (fields : RunStore.RunUpdate)
  | upsertWorkerHeartbeat (row : WorkerHeartbeat)
  | clearWorkerCurrentModel (hostLabel queue project : String)
  | flagStaleWorkers (staleAfterS : Int) (project : String)
  | flagUnassignableGpuJobs (staleS : Int) (project : String)

/-- What the sweep loops of the orchestrator make of the rows that come back: an event for a
job, a log line for a worker. -/
structure Report where
  unassignable : List NodeJob := []
  dead : List (WorkerHeartbeat × Nat) := []

namespace FleetStatement

def run : FleetStatement → Txn Report
  | .onRows operation => operation.run.map fun _ => {}
  | .enqueueNodeJob new => (NodeQueue.enqueueNodeJob new).map fun _ => {}
  | .insertSkippedJob runId nodeId pipelineName project =>
    (NodeQueue.insertSkippedJob runId nodeId pipelineName project).map fun _ => {}
  | .deleteNonTerminalJobs runId =>
    (NodeQueue.deleteNonTerminalJobsForRun runId).map fun _ => {}
  | .insertRun run => (QueueWorkflows.insertRun run).map fun _ => {}
  | .cancelRun runId => (QueueWorkflows.cancelRun runId).map fun _ => {}
  | .updateRun runId fields => (RunStore.updateRun runId fields).map fun _ => {}
  | .upsertWorkerHeartbeat row => (beat row).map fun _ => {}
  | .clearWorkerCurrentModel hostLabel queue project =>
    (NodeQueue.clearWorkerCurrentModel hostLabel queue project).map fun _ => {}
  | .flagStaleWorkers staleAfterS project =>
    (NodeQueue.flagStaleWorkers staleAfterS project).map fun dead => { dead }
  | .flagUnassignableGpuJobs staleS project =>
    (NodeQueue.flagUnassignableGpuJobs staleS project).map fun unassignable => { unassignable }

/-- The worker whose heartbeat the statement is. -/
def beats : FleetStatement → Option (String × String × String)
  | .upsertWorkerHeartbeat row => some row.key
  | _ => none

end FleetStatement

/-- The rows whose flag has gone from NULL to set. -/
def newlyFlagged (before after : Db) : List Nat :=
  (after.jobs.rows.filter fun job => job.unassignableAt.isSome &&
    (before.job? job.id).all fun old => old.unassignableAt.isNone).map NodeJob.id

/-- The store, with what has been reported so far: the events about jobs that cannot be
assigned, the changes of their flags, and the heartbeats and dead workers in one log. -/
structure Fleet where
  db : Db
  events : List Nat := []
  flags : List Nat := []
  log : List (Notice (String × String × String)) := []

namespace Fleet

inductive Move where
  | clock (now : Time)
  | statement (statement : FleetStatement)

/-- A statement that raises is rolled back. The clock does not go back. -/
def step (fleet : Fleet) : Move → Fleet
  | .clock now => { fleet with db := { fleet.db with clock := max fleet.db.clock now } }
  | .statement statement =>
    match statement.run fleet.db with
    | .error _ => fleet
    | .ok (report, db) =>
      { db := db
        events := fleet.events ++ report.unassignable.map NodeJob.id
        flags := fleet.flags ++ newlyFlagged fleet.db db
        log := fleet.log ++ statement.beats.toList.map .begins ++
          report.dead.map fun dead => .flagged dead.1.key }

def empty : Fleet where
  db := Db.empty

/-- Any history of statements, at any times. -/
def after (moves : List Move) : Fleet :=
  History.after step empty moves

end Fleet

/-! ### Statements that leave the flags alone -/

/-- The columns that the sweep of the jobs goes by. -/
structure SameFlag (old new : NodeJob) : Prop where
  id : new.id = old.id
  queue : new.queue = old.queue
  requiredModel : new.requiredModel = old.requiredModel
  unassignableAt : new.unassignableAt = old.unassignableAt

/-- No flag is set, and those of the rows that stay are kept. -/
def Unflagging (before after : Db) : Prop :=
  ∀ job ∈ after.jobs.rows, (∃ old ∈ before.jobs.rows, SameFlag old job) ∨ job.unassignableAt = none

section Statements

variable {db before after : Db} {selects : NodeJob → Bool} {change : NodeJob → NodeJob}

theorem unflagging_of_same (rows : after.jobs.rows = before.jobs.rows) :
    Unflagging before after :=
  fun job member => .inl ⟨job, rows ▸ member, rfl, rfl, rfl, rfl⟩

theorem unflagging_of_update
    (rows : after.jobs.rows = db.jobs.rows.map fun job => if selects job then change job else job)
    (same : ∀ job, SameFlag job (change job)) : Unflagging db after := by
  intro job member
  rw [rows] at member
  obtain ⟨old, present, rfl⟩ := List.mem_map.mp member
  refine .inl ⟨old, present, ?_⟩
  split
  · exact same old
  · exact ⟨rfl, rfl, rfl, rfl⟩

theorem unflagging_of_insertJob {row : Nat → Time → NodeJob} {id : Nat}
    (unset : ∀ id now, (row id now).unassignableAt = none)
    (done : NodeQueue.insertJob row db = .ok (id, after)) : Unflagging db after := by
  simp only [NodeQueue.insertJob] at done
  split at done
  · cases done
  · split at done
    · cases done
    · rename_i jobs inserted
      cases done
      intro job member
      rw [Table.rows_insert? inserted] at member
      rcases List.mem_append.mp member with old | new
      · exact .inl ⟨job, old, rfl, rfl, rfl, rfl⟩
      · exact .inr (List.mem_singleton.mp new ▸ unset _ _)

theorem unflagging_of_claim {claim : NodeQueue.Claim} {queue : Queue}
    {capability : NodeJob → Bool} {rank : NodeJob → List Int} {row : Option NodeJob}
    (done : NodeQueue.claimNext claim queue capability rank db = .ok (row, after)) :
    Unflagging db after := by
  unfold NodeQueue.claimNext at done
  split at done
  · cases done
    exact unflagging_of_same rfl
  · cases done
    exact unflagging_of_update rfl fun _ => ⟨rfl, rfl, rfl, rfl⟩

/-- No operation on the stored rows touches a flag. -/
theorem unflagging_of_operation {operation : NodeQueue.Operation}
    (done : operation.run db = .ok ((), after)) : Unflagging db after := by
  cases operation with
  | claimCpu claim =>
    dsimp only [NodeQueue.Operation.run] at done
    obtain ⟨row, done, -⟩ := Txn.map_cases done
    exact unflagging_of_claim done
  | claimGpu claim gpu =>
    dsimp only [NodeQueue.Operation.run] at done
    obtain ⟨row, done, -⟩ := Txn.map_cases done
    exact unflagging_of_claim done
  | reclaimExpired =>
    dsimp only [NodeQueue.Operation.run] at done
    obtain ⟨rows, done, -⟩ := Txn.map_cases done
    cases done
    refine unflagging_of_update rfl fun job => ?_
    unfold NodeQueue.reclaimed
    split <;> exact ⟨rfl, rfl, rfl, rfl⟩
  | _ =>
    cases done
    exact unflagging_of_update rfl fun _ => ⟨rfl, rfl, rfl, rfl⟩

end Statements

/-! ### The sweep of the jobs -/

namespace NodeQueue

/-- The clear pass takes the flag off the row. -/
def clears (fleet : List WorkerHeartbeat) (project : String) (job : NodeJob) : Bool :=
  job.unassignableAt.isSome && job.project == project &&
    (job.status != .queued || fitsSome fleet job)

/-- The flag pass flags the row. -/
def raises (fleet : List WorkerHeartbeat) (project : String) (job : NodeJob) : Bool :=
  job.queue == .gpu && job.project == project && job.status == .queued &&
    job.requiredModel.isSome && job.unassignableAt.isNone && !fleet.isEmpty && !fitsSome fleet job

/-- The row after the clear pass. -/
def cleared (fleet : List WorkerHeartbeat) (project : String) (job : NodeJob) : NodeJob :=
  if clears fleet project job then { job with unassignableAt := none, unassignableReason := none }
  else job

/-- The row that the flag pass leaves flagged. -/
def flagged (fleet : List WorkerHeartbeat) (now : Time) (job : NodeJob) : NodeJob :=
  { job with
    unassignableAt := some now
    unassignableReason := job.requiredModel.map (unassignableReason fleet) }

/-- The row after both passes. -/
def swept (fleet : List WorkerHeartbeat) (project : String) (now : Time) (job : NodeJob) : NodeJob :=
  if raises fleet project (cleared fleet project job) then flagged fleet now (cleared fleet project job)
  else cleared fleet project job

section Sweep

variable {fleet : List WorkerHeartbeat} {project : String} {staleS : Int} {now : Time}
  {db after : Db} {rows : List NodeJob} {job : NodeJob}

theorem flagUnassignableGpuJobs_cases
    (done : flagUnassignableGpuJobs staleS project db = .ok (rows, after)) :
    after.jobs.rows = db.jobs.rows.map (swept (liveGpu staleS project db) project db.clock) ∧
      rows = ((db.jobs.rows.map (cleared (liveGpu staleS project db) project)).filter
        (raises (liveGpu staleS project db) project)).map
          (flagged (liveGpu staleS project db) db.clock) := by
  cases done
  refine ⟨?_, rfl⟩
  rw [show swept (liveGpu staleS project db) project db.clock = (fun job =>
      if raises (liveGpu staleS project db) project job then
        flagged (liveGpu staleS project db) db.clock job else job) ∘
      cleared (liveGpu staleS project db) project from rfl, ← List.map_map]
  rfl

theorem cleared_same : (cleared fleet project job).id = job.id ∧
    (cleared fleet project job).queue = job.queue ∧
    (cleared fleet project job).requiredModel = job.requiredModel ∧
    (cleared fleet project job).status = job.status ∧
    (cleared fleet project job).project = job.project := by
  unfold cleared
  split <;> exact ⟨rfl, rfl, rfl, rfl, rfl⟩

/-- A flag is only set on a row without one that is left to wait for a machine. -/
theorem raises_cleared : raises fleet project (cleared fleet project job) = true ↔
    job.queue = .gpu ∧ job.project = project ∧ job.status = .queued ∧
      job.requiredModel.isSome = true ∧ job.unassignableAt = none ∧ fleet ≠ [] ∧
      fitsSome fleet job = false := by
  unfold cleared
  cases clear : clears fleet project job with
  | false =>
    simp [raises]
    tauto
  | true =>
    simp only [clears, Bool.and_eq_true, Bool.or_eq_true, bne_iff_ne] at clear
    have fits : fitsSome fleet { job with unassignableAt := none, unassignableReason := none } =
        fitsSome fleet job := rfl
    simp only [raises, if_true, fits]
    constructor
    · intro raised
      simp only [Bool.and_eq_true, beq_iff_eq, Bool.not_eq_true'] at raised
      obtain ⟨⟨⟨⟨⟨⟨-, -⟩, queued⟩, -⟩, -⟩, -⟩, unfit⟩ := raised
      rcases clear.2 with left | fit
      · exact absurd queued left
      · rw [unfit] at fit
        cases fit
    · rintro ⟨-, -, -, -, none, -⟩
      rw [none] at clear
      cases clear.1.1

/-- The flag of a row after the sweep. -/
theorem swept_flagged : (swept fleet project now job).unassignableAt.isSome = true ↔
    (raises fleet project (cleared fleet project job) = true ∨
      job.unassignableAt.isSome = true ∧ clears fleet project job = false) := by
  unfold swept
  split
  · rename_i raised
    simp [raised, flagged]
  · rename_i kept
    simp only [kept, false_or, Bool.false_eq_true]
    unfold cleared
    split
    · rename_i clear
      simp [clear]
    · rename_i stays
      simp [stays]

theorem swept_same : (swept fleet project now job).id = job.id ∧
    (swept fleet project now job).queue = job.queue ∧
    (swept fleet project now job).requiredModel = job.requiredModel ∧
    (swept fleet project now job).status = job.status ∧
    (swept fleet project now job).project = job.project := by
  have same : _ ∧ _ ∧ _ ∧ _ ∧ _ := @cleared_same fleet project job
  unfold swept
  split <;> exact same

theorem fitsSome_eq_false {model : String} (needs : job.requiredModel = some model) :
    fitsSome fleet job = false ↔ ∀ beat ∈ fleet, model ∉ beat.fitsModels := by
  simp [fitsSome, needs]

/-- With a live machine, the sweep leaves a row of the project flagged exactly if it waits
for a machine that can hold its model and there is none. -/
theorem swept_exact (mine : job.project = project) (alive : fleet ≠ [])
    (flaggable : job.unassignableAt.isSome = true →
      job.queue = .gpu ∧ job.requiredModel.isSome = true) :
    (swept fleet project now job).unassignableAt.isSome = true ↔
      job.status = .queued ∧ job.queue = .gpu ∧
        ∃ model, job.requiredModel = some model ∧ ∀ beat ∈ fleet, model ∉ beat.fitsModels := by
  have waits : (∃ model, job.requiredModel = some model ∧ ∀ beat ∈ fleet, model ∉ beat.fitsModels) ↔
      job.requiredModel.isSome = true ∧ fitsSome fleet job = false := by
    constructor
    · rintro ⟨model, needs, none⟩
      exact ⟨by simp [needs], (fitsSome_eq_false needs).mpr none⟩
    · rintro ⟨some', unfit⟩
      obtain ⟨model, needs⟩ := Option.isSome_iff_exists.mp some'
      exact ⟨model, needs, (fitsSome_eq_false needs).mp unfit⟩
  rw [swept_flagged, raises_cleared, waits]
  constructor
  · rintro (⟨gpu, -, queued, model, -, -, unfit⟩ | ⟨set, kept⟩)
    · exact ⟨queued, gpu, model, unfit⟩
    · obtain ⟨gpu, model⟩ := flaggable set
      simp only [clears, set, mine, Bool.true_and, beq_self_eq_true, Bool.or_eq_false_iff,
        bne_eq_false_iff_eq] at kept
      exact ⟨kept.1, gpu, model, kept.2⟩
  · rintro ⟨queued, gpu, model, unfit⟩
    cases set : job.unassignableAt with
    | none => exact .inl ⟨gpu, mine, queued, model, rfl, alive, unfit⟩
    | some since =>
      right
      simp [clears, queued, unfit]

end Sweep

end NodeQueue

section Sweeps

variable {staleS : Int} {project : String} {db after : Db} {rows : List NodeJob}
  {statement : FleetStatement} {report : Report}

/-- Only GPU rows with a model are ever flagged. -/
def Flaggable (db : Db) : Prop :=
  ∀ job ∈ db.jobs.rows, job.unassignableAt.isSome = true →
    job.queue = .gpu ∧ job.requiredModel.isSome = true

theorem newlyFlagged_of_unflagging (unflagging : Unflagging db after) :
    newlyFlagged db after = [] := by
  rw [newlyFlagged, List.map_eq_nil_iff, List.filter_eq_nil_iff]
  intro job member
  rcases unflagging job member with ⟨old, present, same⟩ | none
  · have found := Db.job?_of_mem present
    rw [← same.id] at found
    rw [found, same.unassignableAt]
    cases set : old.unassignableAt <;> simp [set]
  · simp [none]

theorem Flaggable.of_unflagging (flaggable : Flaggable db) (unflagging : Unflagging db after) :
    Flaggable after := by
  intro job member set
  rcases unflagging job member with ⟨old, present, same⟩ | none
  · rw [same.queue, same.requiredModel]
    exact flaggable old present (same.unassignableAt ▸ set)
  · rw [none] at set
    cases set

theorem Flaggable.of_sweep (flaggable : Flaggable db)
    (done : NodeQueue.flagUnassignableGpuJobs staleS project db = .ok (rows, after)) :
    Flaggable after := by
  intro job member set
  rw [(NodeQueue.flagUnassignableGpuJobs_cases done).1] at member
  obtain ⟨old, present, rfl⟩ := List.mem_map.mp member
  obtain ⟨-, queue, model, -⟩ := @NodeQueue.swept_same
    (NodeQueue.liveGpu staleS project db) project db.clock old
  rw [queue, model]
  rcases NodeQueue.swept_flagged.mp set with raised | ⟨before, -⟩
  · obtain ⟨gpu, -, -, needs, -⟩ := NodeQueue.raises_cleared.mp raised
    exact ⟨gpu, needs⟩
  · exact flaggable old present before

/-- The sweep returns the rows that it has newly flagged. -/
theorem returned_eq_newlyFlagged
    (done : NodeQueue.flagUnassignableGpuJobs staleS project db = .ok (rows, after)) :
    rows.map NodeJob.id = newlyFlagged db after := by
  obtain ⟨stored, returned⟩ := NodeQueue.flagUnassignableGpuJobs_cases done
  rw [returned, newlyFlagged, stored, List.filter_map, List.filter_map, List.map_map, List.map_map,
    List.map_map]
  have chosen : ∀ job ∈ db.jobs.rows,
      (NodeQueue.raises (NodeQueue.liveGpu staleS project db) project ∘
        NodeQueue.cleared (NodeQueue.liveGpu staleS project db) project) job =
      ((fun job : NodeJob => job.unassignableAt.isSome &&
        (db.job? job.id).all fun old => old.unassignableAt.isNone) ∘
          NodeQueue.swept (NodeQueue.liveGpu staleS project db) project db.clock) job := by
    intro job present
    rw [Bool.eq_iff_iff, Function.comp_apply, Function.comp_apply, Bool.and_eq_true,
      NodeQueue.swept_flagged, NodeQueue.swept_same.1, Db.job?_of_mem present]
    simp only [Option.all_some, Option.isNone_iff_eq_none]
    constructor
    · intro raised
      obtain ⟨-, -, -, -, unset, -⟩ := NodeQueue.raises_cleared.mp raised
      exact ⟨.inl raised, unset⟩
    · rintro ⟨raised | ⟨set, -⟩, unset⟩
      · exact raised
      · rw [unset] at set
        cases set
  rw [List.filter_congr chosen]
  refine List.map_congr_left fun job _ => ?_
  exact NodeQueue.cleared_same.1.trans NodeQueue.swept_same.1.symm

/-- No other statement sets a flag, and none reports a job. -/
theorem FleetStatement.run_cases (done : statement.run db = .ok (report, after)) :
    report.unassignable = [] ∧ Unflagging db after ∨
      ∃ staleS project, statement = .flagUnassignableGpuJobs staleS project ∧
        NodeQueue.flagUnassignableGpuJobs staleS project db = .ok (report.unassignable, after) := by
  cases statement with
  | onRows operation =>
    dsimp only [run] at done
    obtain ⟨_, ran, rfl⟩ := Txn.map_cases done
    exact .inl ⟨rfl, unflagging_of_operation ran⟩
  | enqueueNodeJob new =>
    dsimp only [run] at done
    obtain ⟨_, ran, rfl⟩ := Txn.map_cases done
    refine .inl ⟨rfl, ?_⟩
    unfold NodeQueue.enqueueNodeJob at ran
    split at ran
    · cases ran
    · exact unflagging_of_insertJob (fun _ _ => rfl) ran
  | insertSkippedJob =>
    dsimp only [run] at done
    obtain ⟨_, ran, rfl⟩ := Txn.map_cases done
    exact .inl ⟨rfl, unflagging_of_insertJob (fun _ _ => rfl) ran⟩
  | deleteNonTerminalJobs =>
    cases done
    refine .inl ⟨rfl, fun job member => .inl ⟨job, ?_, rfl, rfl, rfl, rfl⟩⟩
    exact List.mem_of_mem_filter member
  | insertRun row =>
    dsimp only [run] at done
    obtain ⟨_, ran, rfl⟩ := Txn.map_cases done
    refine .inl ⟨rfl, unflagging_of_same ?_⟩
    unfold QueueWorkflows.insertRun at ran
    split at ran
    · cases ran
      rfl
    · cases ran
  | cancelRun | updateRun | upsertWorkerHeartbeat | clearWorkerCurrentModel | flagStaleWorkers =>
    cases done
    exact .inl ⟨rfl, unflagging_of_same rfl⟩
  | flagUnassignableGpuJobs staleS project =>
    dsimp only [run] at done
    obtain ⟨rows, ran, rfl⟩ := Txn.map_cases done
    exact .inr ⟨staleS, project, rfl, ran⟩

end Sweeps

namespace Fleet

/-- A statement raises and is rolled back, or its report is added. -/
theorem step_cases (fleet : Fleet) (statement : FleetStatement) :
    fleet.step (.statement statement) = fleet ∨ ∃ report db,
      statement.run fleet.db = .ok (report, db) ∧ fleet.step (.statement statement) = {
        db := db
        events := fleet.events ++ report.unassignable.map NodeJob.id
        flags := fleet.flags ++ newlyFlagged fleet.db db
        log := fleet.log ++ statement.beats.toList.map .begins ++
          report.dead.map fun dead => .flagged dead.1.key } := by
  cases ran : statement.run fleet.db with
  | error error =>
    left
    simp only [step, ran]
  | ok outcome =>
    right
    refine ⟨outcome.1, outcome.2, rfl, ?_⟩
    simp only [step, ran]

section Jobs

variable {fleet : Fleet} {move : Move} {moves : List Move} {staleS : Int} {project : String}
  {rows : List NodeJob} {db : Db}

/-- What the sweep of the jobs has reported is what has been flagged. -/
structure Tallied (fleet : Fleet) : Prop where
  flaggable : Flaggable fleet.db
  events : fleet.events = fleet.flags

theorem Tallied.step (tallied : Tallied fleet) : Tallied (fleet.step move) := by
  cases move with
  | clock now => exact ⟨tallied.flaggable, tallied.events⟩
  | statement statement =>
    rcases step_cases fleet statement with same | ⟨report, db, ran, stepped⟩
    · rw [same]
      exact tallied
    · rw [stepped]
      rcases statement.run_cases ran with ⟨silent, unflagging⟩ | ⟨staleS, project, -, swept⟩
      · refine ⟨tallied.flaggable.of_unflagging unflagging, ?_⟩
        simp [silent, newlyFlagged_of_unflagging unflagging, tallied.events]
      · refine ⟨tallied.flaggable.of_sweep swept, ?_⟩
        simp only [tallied.events, returned_eq_newlyFlagged swept]

theorem tallied_after : Tallied (after moves) := by
  induction moves using List.reverseRecOn with
  | nil => exact ⟨fun job member => (by cases member), rfl⟩
  | append_singleton moves move ih =>
    unfold after at ih ⊢
    rw [History.after_snoc]
    exact ih.step

/-- **Unassignable jobs.** After a sweep with a live GPU machine, the rows of its project
that are flagged are those that wait for a machine that can hold their model and have none;
without a live machine the sweep flags no row. It returns the rows that it has newly
flagged, so that over any history each flagging is reported once. -/
theorem unassignable_sweep_exact
    (done : NodeQueue.flagUnassignableGpuJobs staleS project (after moves).db = .ok (rows, db)) :
    (NodeQueue.liveGpu staleS project (after moves).db ≠ [] →
      ∀ job ∈ db.jobs.rows, job.project = project → (job.unassignableAt.isSome = true ↔
        job.status = .queued ∧ job.queue = .gpu ∧ ∃ model, job.requiredModel = some model ∧
          ∀ beat ∈ NodeQueue.liveGpu staleS project (after moves).db, model ∉ beat.fitsModels)) ∧
    (NodeQueue.liveGpu staleS project (after moves).db = [] →
      newlyFlagged (after moves).db db = []) ∧
    rows.map NodeJob.id = newlyFlagged (after moves).db db ∧
    (after moves).events = (after moves).flags := by
  have tallied : Tallied (after moves) := tallied_after
  have returned := returned_eq_newlyFlagged done
  obtain ⟨stored, listed⟩ := NodeQueue.flagUnassignableGpuJobs_cases done
  refine ⟨fun alive job member mine => ?_, fun silent => ?_, returned, tallied.events⟩
  · rw [stored] at member
    obtain ⟨old, present, rfl⟩ := List.mem_map.mp member
    obtain ⟨-, queue, model, status, owner⟩ := @NodeQueue.swept_same
      (NodeQueue.liveGpu staleS project (after moves).db) project (after moves).db.clock old
    rw [queue, model, status]
    exact NodeQueue.swept_exact (owner.symm.trans mine) alive (tallied.flaggable old present)
  · rw [← returned, listed, List.map_eq_nil_iff, List.map_eq_nil_iff, List.filter_eq_nil_iff]
    intro row _
    simp [NodeQueue.raises, silent]

/-! ### Samples -/

def Sample.run : RunRow where
  id := "run"
  workflowName := "render"

def Sample.render : NodeQueue.NewJob where
  runId := "run"
  nodeId := "render"
  nodeModule := "nodes.render"
  queue := .gpu
  requiredModel := some "flux"
  project := ""

/-- A machine that cannot hold the model of the row. -/
def Sample.small : WorkerHeartbeat where
  hostLabel := "small"
  queue := "gpu"
  project := ""
  lastSeen := 0

def Sample.starving : List Move :=
  [.statement (.insertRun Sample.run), .statement (.enqueueNodeJob Sample.render),
    .statement (.upsertWorkerHeartbeat Sample.small)]

theorem starving_row_flagged : ∃ rows db,
    NodeQueue.flagUnassignableGpuJobs 30 "" (after Sample.starving).db = .ok (rows, db) ∧
    rows.map NodeJob.id = [0] ∧
    (NodeQueue.liveGpu 30 "" (after Sample.starving).db ≠ [] →
      ∀ job ∈ db.jobs.rows, job.project = "" → (job.unassignableAt.isSome = true ↔
        job.status = .queued ∧ job.queue = .gpu ∧ ∃ model, job.requiredModel = some model ∧
          ∀ beat ∈ NodeQueue.liveGpu 30 "" (after Sample.starving).db, model ∉ beat.fitsModels)) ∧
    (NodeQueue.liveGpu 30 "" (after Sample.starving).db = [] →
      newlyFlagged (after Sample.starving).db db = []) ∧
    rows.map NodeJob.id = newlyFlagged (after Sample.starving).db db ∧
    (after Sample.starving).events = (after Sample.starving).flags :=
  ⟨_, _, rfl, by decide +kernel, unassignable_sweep_exact rfl⟩

end Jobs

end Fleet

end QueueWorkflows
