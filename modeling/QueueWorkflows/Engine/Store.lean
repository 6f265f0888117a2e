import QueueWorkflows.Base.Table
import QueueWorkflows.Engine.Value

/-! The engine's tables. Columns that no modelled statement reads (telemetry,
timestamps kept for display, the retired step mode) are left out. -/

namespace QueueWorkflows

open Relational (Table)

/-- Microseconds. The store's `now()` is a field of the database. -/
abbrev Time := Int

def seconds (count : Int) : Time :=
  count * 1000000

inductive RunStatus where
  | queued
  | running
  | completed
  | failed
  | cancelled
deriving DecidableEq, Repr

/-- The guard `status in ("cancelled", "failed")` of the callbacks and the claim. -/
def RunStatus.halted : RunStatus → Bool
  | .cancelled | .failed => true
  | _ => false

def RunStatus.terminal : RunStatus → Bool
  | .completed | .failed | .cancelled => true
  | _ => false

theorem RunStatus.terminal_of_halted {status : RunStatus} (halted : status.halted = true) :
    status.terminal = true := by
  cases status with
  | queued | running | completed => cases halted
  | failed | cancelled => rfl

inductive JobStatus where
  | queued
  | running
  | completed
  | failed
  | cancelled
  | awaitingInput
  | skipped
deriving DecidableEq, Repr

/-- A predecessor in this status satisfies its dependents. -/
def JobStatus.satisfied : JobStatus → Bool
  | .completed | .skipped => true
  | _ => false

def JobStatus.live : JobStatus → Bool
  | .queued | .running | .awaitingInput => true
  | _ => false

/-- The guard `status NOT IN ('completed', 'failed', 'cancelled')`, negated. -/
def JobStatus.closed : JobStatus → Bool
  | .completed | .failed | .cancelled => true
  | _ => false

inductive EventKind where
  | completed
  | failed
  | awaitingInput
deriving DecidableEq, Repr

inductive SubmissionStatus where
  | pending
  | processing
  | processed
  | failed
deriving DecidableEq, Repr

inductive RunMode where
  | step
  | node
deriving DecidableEq, Repr

inductive Queue where
  | cpu
  | gpu
deriving DecidableEq, Repr

/-- The column's text; a heartbeat's queue may be an ingest queue as well. -/
def Queue.name : Queue → String
  | .cpu => "cpu"
  | .gpu => "gpu"

/-- A row of `workflow_runs`. -/
structure RunRow where
  id : String
  workflowName : String
  status : RunStatus := .queued
  priority : Int := 100
  context : Dict := []
  error : Option String := none
  outDir : Option String := none
  mode : RunMode := .node
  resumeCount : Nat := 0
  project : String := ""
  queuedAt : Option Time := none
  finishedAt : Option Time := none

/-- A row of `workflow_node_jobs`. -/
structure NodeJob where
  id : Nat
  runId : String
  nodeId : String
  nodeModule : String
  pipelineName : Option String := none
  queue : Queue
  requiredModel : Option String := none
  status : JobStatus
  priority : Int := 100
  isPriority : Bool := false
  workerLane : Option Nat := none
  inputs : Dict := []
  resolvedInputs : Option Dict := none
  inputSpec : Option Json := none
  contextDelta : Json := .obj []
  hostLabel : Option String := none
  error : Option String := none
  claimedBy : Option String := none
  leaseExpiresAt : Option Time := none
  watchdogRetries : Nat := 0
  unassignableAt : Option Time := none
  unassignableReason : Option String := none
  project : String := ""
  createdAt : Time
  startedAt : Option Time := none
  finishedAt : Option Time := none

/-- The columns under a uniqueness constraint: the primary key and the DAG cell. -/
def NodeJob.key (job : NodeJob) : Nat × String × String :=
  (job.id, job.runId, job.nodeId)

/-- `PRIMARY KEY (id)` and `UNIQUE (run_id, node_id)`. -/
def NodeJob.Clash (first second : Nat × String × String) : Prop :=
  first.1 = second.1 ∨ first.2 = second.2

instance : DecidableRel NodeJob.Clash :=
  fun first second => inferInstanceAs (Decidable (first.1 = second.1 ∨ first.2 = second.2))

/-- A row of `workflow_dispatch_events`. -/
structure DispatchEvent where
  id : Nat
  runId : String
  nodeId : String
  kind : EventKind
  processedAt : Option Time := none
  error : Option String := none
  attempts : Nat := 0

/-- A row of `workflow_input_submissions`. -/
structure InputSubmission where
  id : Nat
  runId : String
  nodeId : String
  value : Json
  status : SubmissionStatus := .pending
  error : Option String := none
  claimedAt : Option Time := none

/-- A row of `worker_heartbeats`. -/
structure WorkerHeartbeat where
  hostLabel : String
  queue : String
  project : String
  lastSeen : Time
  concurrency : Int := 1
  vramTotalMb : Option Int := none
  fitsModels : List String := []
  lastFlaggedDeadAt : Option Time := none

structure Db where
  clock : Time
  runs : Table RunRow RunRow.id Eq
  jobs : Table NodeJob NodeJob.key NodeJob.Clash
  events : List DispatchEvent
  submissions : List InputSubmission
  heartbeats : List WorkerHeartbeat
  /-- Row ids are random UUIDs in the source; here they come from a sequence. -/
  nextJob : Nat
  nextEvent : Nat

def Db.empty : Db where
  clock := 0
  runs := Table.empty
  jobs := Table.empty
  events := []
  submissions := []
  heartbeats := []
  nextJob := 0
  nextEvent := 0

/-- The body of one `with connection()` block. -/
abbrev Txn := StateT Db (Except PyErr)

namespace Db

def run? (db : Db) (runId : String) : Option RunRow :=
  db.runs.rows.find? fun run => run.id == runId

def job? (db : Db) (jobId : Nat) : Option NodeJob :=
  db.jobs.rows.find? fun job => job.id == jobId

def jobsOf (db : Db) (runId : String) : List NodeJob :=
  db.jobs.rows.filter fun job => job.runId == runId

theorem run?_mem {db : Db} {runId : String} {run : RunRow} (found : db.run? runId = some run) :
    run ∈ db.runs.rows ∧ run.id = runId :=
  ⟨List.mem_of_find?_eq_some found, by simpa using List.find?_some found⟩

theorem run?_of_mem {db : Db} {run : RunRow} (present : run ∈ db.runs.rows) :
    db.run? run.id = some run := by
  cases found : db.run? run.id with
  | none => simpa using List.find?_eq_none.mp found run present
  | some other =>
    obtain ⟨member, same⟩ := run?_mem found
    rw [db.runs.eq_of_clash Eq.symm member present same]

theorem run?_eq_none {db : Db} {runId : String} (absent : ∀ run ∈ db.runs.rows, run.id ≠ runId) :
    db.run? runId = none := by
  simpa [run?] using absent

theorem run?_update {db : Db} {runId : String} {selects : RunRow → Bool}
    {change : RunRow → RunRow} {keeps : ∀ run, (change run).id = run.id} :
    ({ db with runs := db.runs.update selects change keeps } : Db).run? runId =
      (db.run? runId).map fun run => if selects run then change run else run := by
  unfold run?
  rw [Table.rows_update, List.find?_map]
  congr 2
  funext run
  simp only [Function.comp_apply]
  split
  · rw [keeps run]
  · rfl

theorem job?_update {db : Db} {jobId : Nat} {selects : NodeJob → Bool}
    {change : NodeJob → NodeJob} {keeps : ∀ job, (change job).key = job.key} :
    ({ db with jobs := db.jobs.update selects change keeps } : Db).job? jobId =
      (db.job? jobId).map fun job => if selects job then change job else job := by
  unfold job?
  rw [Table.rows_update, List.find?_map]
  congr 2
  funext job
  simp only [Function.comp_apply]
  split
  · rw [show (change job).id = job.id from congrArg Prod.fst (keeps job)]
  · rfl

theorem job?_mem {db : Db} {jobId : Nat} {job : NodeJob} (found : db.job? jobId = some job) :
    job ∈ db.jobs.rows ∧ job.id = jobId :=
  ⟨List.mem_of_find?_eq_some found, by simpa using List.find?_some found⟩

private theorem clash_symm {first second : Nat × String × String}
    (clashes : NodeJob.Clash first second) : NodeJob.Clash second first :=
  clashes.imp Eq.symm Eq.symm

theorem eq_of_id {db : Db} {first second : NodeJob} (present₁ : first ∈ db.jobs.rows)
    (present₂ : second ∈ db.jobs.rows) (same : first.id = second.id) : first = second :=
  db.jobs.eq_of_clash clash_symm present₁ present₂ (.inl same)

/-- One row per DAG cell. -/
theorem eq_of_cell {db : Db} {first second : NodeJob} (present₁ : first ∈ db.jobs.rows)
    (present₂ : second ∈ db.jobs.rows) (run : first.runId = second.runId)
    (node : first.nodeId = second.nodeId) : first = second :=
  db.jobs.eq_of_clash clash_symm present₁ present₂ (.inr (Prod.ext run node))

theorem nodup_jobs (db : Db) : db.jobs.rows.Nodup :=
  (List.pairwise_map.mp db.jobs.unique).imp fun apart same => apart (.inl (congrArg NodeJob.id same))

theorem job?_of_mem {db : Db} {job : NodeJob} (present : job ∈ db.jobs.rows) :
    db.job? job.id = some job := by
  cases found : db.job? job.id with
  | none => simpa using List.find?_eq_none.mp found job present
  | some other =>
    obtain ⟨member, same⟩ := job?_mem found
    rw [eq_of_id member present same]

@[simp] theorem mem_jobsOf {db : Db} {runId : String} {job : NodeJob} :
    job ∈ db.jobsOf runId ↔ job ∈ db.jobs.rows ∧ job.runId = runId := by
  simp [jobsOf]

/-- The row of a node, among those of its run. -/
theorem find_node {db : Db} {job : NodeJob} {runId nodeId : String}
    (present : job ∈ db.jobs.rows) (run : job.runId = runId) (node : job.nodeId = nodeId) :
    ((db.jobsOf runId).find? fun other => other.nodeId == nodeId) = some job := by
  cases found : (db.jobsOf runId).find? fun other => other.nodeId == nodeId with
  | none =>
    have none := List.find?_eq_none.mp found job (mem_jobsOf.mpr ⟨present, run⟩)
    simp [node] at none
  | some other =>
    obtain ⟨stored, mine⟩ := mem_jobsOf.mp (List.mem_of_find?_eq_some found)
    have same : other.nodeId = nodeId := by simpa using List.find?_some found
    rw [eq_of_cell stored present (mine.trans run.symm) (same.trans node.symm)]

theorem jobsOf_update {db after : Db} {selects : NodeJob → Bool} {change : NodeJob → NodeJob}
    (keeps : ∀ job, (change job).key = job.key)
    (jobs : after.jobs = db.jobs.update selects change keeps) (runId : String) :
    after.jobsOf runId =
      (db.jobsOf runId).map fun job => if selects job then change job else job := by
  unfold jobsOf
  rw [jobs, Table.rows_update, List.filter_map]
  congr 2
  funext job
  simp only [Function.comp_apply]
  split
  · have same : (change job).runId = job.runId := congrArg (fun key => key.2.1) (keeps job)
    rw [same]
  · rfl

end Db

end QueueWorkflows
