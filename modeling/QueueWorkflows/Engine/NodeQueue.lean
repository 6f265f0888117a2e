import QueueWorkflows.Engine.Workflow
import Mathlib.Data.List.Sort

/-! The statements of `node_queue` over `workflow_node_jobs` and the dispatch-event
outbox, and of `run_store` over `workflow_runs`. Each is one transaction. -/

namespace QueueWorkflows

open Relational (Table)

/-- `UPDATE workflow_node_jobs … RETURNING *`: the rows as they are afterwards. -/
def updateJobs (selects : NodeJob → Bool) (change : NodeJob → NodeJob)
    (keeps : ∀ job, (change job).key = job.key := by intro; rfl) : Txn (List NodeJob) := fun db =>
  .ok ((db.jobs.rows.filter selects).map change,
    { db with jobs := db.jobs.update selects change keeps })

/-- `UPDATE workflow_runs … RETURNING *`. -/
def updateRuns (selects : RunRow → Bool) (change : RunRow → RunRow)
    (keeps : ∀ run, (change run).id = run.id := by intro; rfl) : Txn (List RunRow) := fun db =>
  .ok ((db.runs.rows.filter selects).map change,
    { db with runs := db.runs.update selects change keeps })

namespace NodeQueue

/-! ### Enqueue and reads -/

/-- An insert that the primary key, the cell constraint and the foreign key to
`workflow_runs` all accept. -/
def insertJob (job : Nat → Time → NodeJob) : Txn Nat := fun db =>
  let row := job db.nextJob db.clock
  match db.run? row.runId with
  | none => .error ⟨.integrityError, "workflow_node_jobs_run_id_fkey"⟩
  | some _ =>
    match db.jobs.insert? row with
    | none => .error ⟨.integrityError, "workflow_node_jobs_run_id_node_id_key"⟩
    | some jobs => .ok (row.id, { db with jobs := jobs, nextJob := db.nextJob + 1 })

structure NewJob where
  runId : String
  nodeId : String
  nodeModule : String
  queue : Queue
  requiredModel : Option String := none
  inputs : Dict := []
  priority : Int := 100
  pipelineName : Option String := none
  project : String

def NewJob.row (new : NewJob) (id : Nat) (now : Time) : NodeJob where
  id := id
  runId := new.runId
  nodeId := new.nodeId
  nodeModule := new.nodeModule
  pipelineName := new.pipelineName
  queue := new.queue
  requiredModel := new.requiredModel
  status := .queued
  priority := new.priority
  inputs := new.inputs
  project := new.project
  createdAt := now

def enqueueNodeJob (new : NewJob) : Txn Nat :=
  if new.queue = .cpu ∧ (nonEmpty new.requiredModel).isSome then
    throw ⟨.valueError, "cpu node-job must not set required_model"⟩
  else insertJob new.row

/-- A marker row for a node whose `skip_if` held at ready-check time. -/
def insertSkippedJob (runId nodeId : String) (pipelineName : Option String) (project : String) :
    Txn Nat :=
  insertJob fun id now => {
    id := id, runId := runId, nodeId := nodeId, nodeModule := "", pipelineName := pipelineName
    queue := .cpu, status := .skipped, project := project, createdAt := now
    finishedAt := some now }

def getNodeJob (jobId : Nat) : Txn (Option NodeJob) := fun db => .ok (db.job? jobId, db)

def listJobsForRun (runId : String) : Txn (List NodeJob) := fun db => .ok (db.jobsOf runId, db)

/-! ### Claim -/

/-- The arguments of a claim. `locked` are the rows other sessions hold locked at
that moment: the subselect runs under `FOR UPDATE SKIP LOCKED`. -/
structure Claim where
  host : String
  leaseS : Int := 600
  hostPriority : Int := 0
  project : String := ""
  workerLane : Nat := 0
  locked : List Nat := []

def hostDir (hostPriority : Int) : Int :=
  if hostPriority < 0 then -1 else 1

def lexBefore : List Int → List Int → Bool
  | first :: firsts, second :: seconds =>
    first < second || (first == second && lexBefore firsts seconds)
  | _, _ => false

/-- `ORDER BY rank LIMIT 1`: an earlier row wins a tie. -/
def firstBy {α : Type} (rank : α → List Int) : List α → Option α
  | [] => none
  | row :: rows =>
    match firstBy rank rows with
    | none => some row
    | some other => if lexBefore (rank other) (rank row) then some other else some row

theorem firstBy_mem {α : Type} {rank : α → List Int} {rows : List α} {row : α}
    (chosen : firstBy rank rows = some row) : row ∈ rows := by
  induction rows with
  | nil => cases chosen
  | cons head rest ih =>
    simp only [firstBy] at chosen
    split at chosen
    · cases chosen
      exact List.mem_cons_self
    · rename_i other found
      split at chosen
      · cases chosen
        exact List.mem_cons_of_mem _ (ih found)
      · cases chosen
        exact List.mem_cons_self

theorem lexBefore_between {first second third : List Int} (level : first.length = second.length)
    (before : lexBefore first third = true) :
    lexBefore first second = true ∨ lexBefore second third = true := by
  induction first generalizing second third with
  | nil => cases before
  | cons head rest ih =>
    cases second with
    | nil => cases level
    | cons middle middles =>
      cases third with
      | nil => cases before
      | cons last lasts =>
        simp only [lexBefore, Bool.or_eq_true, decide_eq_true_eq, Bool.and_eq_true,
          beq_iff_eq] at before ⊢
        rcases lt_trichotomy head middle with below | rfl | above
        · exact .inl (.inl below)
        · rcases before with less | ⟨same, behind⟩
          · exact .inr (.inl less)
          · rcases ih (Nat.succ.inj level) behind with left | right
            · exact .inl (.inr ⟨rfl, left⟩)
            · exact .inr (.inr ⟨same, right⟩)
        · rcases before with less | ⟨same, -⟩
          · exact .inr (.inl (above.trans less))
          · exact .inr (.inl (same ▸ above))

theorem lexBefore_asymm {first second : List Int} (before : lexBefore first second = true) :
    lexBefore second first = false := by
  induction first generalizing second with
  | nil => cases before
  | cons head rest ih =>
    cases second with
    | nil => cases before
    | cons other others =>
      simp only [lexBefore, Bool.or_eq_true, decide_eq_true_eq, Bool.and_eq_true,
        beq_iff_eq] at before
      rcases before with less | ⟨rfl, behind⟩
      · have apart : other ≠ head := less.ne'
        simp [lexBefore, less.le, apart]
      · simp [lexBefore, ih behind]

theorem lexBefore_self (rank : List Int) : lexBefore rank rank = false := by
  by_contra before
  exact before (lexBefore_asymm (by simpa using before))

theorem firstBy_isSome {α : Type} {rank : α → List Int} {rows : List α}
    (nonempty : rows ≠ []) : (firstBy rank rows).isSome = true := by
  cases rows with
  | nil => exact absurd rfl nonempty
  | cons row rest =>
    simp only [firstBy]
    split
    · rfl
    · split <;> rfl

/-- The first row is the least, where all ranks have the same number of columns. -/
theorem firstBy_least {α : Type} {rank : α → List Int} {width : Nat} {rows : List α} {row : α}
    (chosen : firstBy rank rows = some row) (level : ∀ row, (rank row).length = width) :
    ∀ other ∈ rows, lexBefore (rank other) (rank row) = false := by
  induction rows generalizing row with
  | nil => cases chosen
  | cons head rest ih =>
    intro other present
    simp only [firstBy] at chosen
    cases found : firstBy rank rest with
    | none =>
      have alone : rest = [] := by
        by_contra more
        have there : (firstBy rank rest).isSome = true := firstBy_isSome more
        simp [found] at there
      rw [found] at chosen
      cases chosen
      rw [alone] at present
      rw [List.mem_singleton.mp present]
      exact lexBefore_self _
    | some best =>
      have least := ih found
      rw [found] at chosen
      simp only at chosen
      split at chosen
      · rename_i before
        cases chosen
        rcases List.mem_cons.mp present with rfl | later
        · exact lexBefore_asymm before
        · exact least other later
      · rename_i after
        cases chosen
        rcases List.mem_cons.mp present with rfl | later
        · exact lexBefore_self _
        · by_contra ahead
          rcases lexBefore_between ((level other).trans (level best).symm)
            (by simpa using ahead) with first | second
          · simp [least other later] at first
          · exact after second

/-- The run-cancel guard: the parent run is neither cancelled nor failed. -/
def parentClaimable (db : Db) (job : NodeJob) : Bool :=
  (db.run? job.runId).any fun run => !run.status.halted

def claimable (claim : Claim) (queue : Queue) (capability : NodeJob → Bool) (db : Db)
    (job : NodeJob) : Bool :=
  job.queue == queue && job.status == .queued && job.project == claim.project &&
    parentClaimable db job && capability job && !claim.locked.contains job.id

/-- A row as its claim leaves it. -/
def taken (claim : Claim) (now : Time) (job : NodeJob) : NodeJob :=
  { job with
    status := .running, startedAt := some now, workerLane := some claim.workerLane
    claimedBy := some claim.host, leaseExpiresAt := some (now + seconds claim.leaseS) }

/-- `_CLAIM_SQL` for a queue, an extra capability filter and an order. -/
def claimNext (claim : Claim) (queue : Queue) (capability : NodeJob → Bool)
    (rank : NodeJob → List Int) : Txn (Option NodeJob) := fun db =>
  match firstBy rank (db.jobs.rows.filter (claimable claim queue capability db)) with
  | none => .ok (none, db)
  | some chosen =>
    (updateJobs (·.id == chosen.id) (taken claim db.clock)).map List.head? db

/-- A claim that returns a row took a claimable one and changed no other. -/
theorem claimNext_cases {claim : Claim} {queue : Queue} {capability : NodeJob → Bool}
    {rank : NodeJob → List Int} {job : NodeJob} {db after : Db}
    (done : claimNext claim queue capability rank db = .ok (some job, after)) :
    ∃ chosen ∈ db.jobs.rows, claimable claim queue capability db chosen = true ∧
      job = taken claim db.clock chosen ∧
      after = { db with
        jobs := db.jobs.update (·.id == chosen.id) (taken claim db.clock) (by intro; rfl) } := by
  unfold claimNext at done
  split at done
  · cases done
  · rename_i chosen first
    have candidate := List.mem_filter.mp (firstBy_mem first)
    obtain ⟨head, store⟩ := Prod.mk.inj (Except.ok.inj done)
    refine ⟨chosen, candidate.1, candidate.2, ?_, store.symm⟩
    obtain ⟨row, present, rfl⟩ := List.mem_map.mp (List.mem_of_mem_head? head)
    simp only [List.mem_filter, beq_iff_eq] at present
    rw [Db.eq_of_id present.1 candidate.1 present.2]

def priorityRank (job : NodeJob) : Int :=
  if job.isPriority then 0 else 1

def claimNextCpuJob (claim : Claim) : Txn (Option NodeJob) :=
  claimNext claim .cpu (fun _ => true) fun job =>
    [priorityRank job, job.priority, job.createdAt * hostDir claim.hostPriority]

/-- The GPU-only arguments of a claim. -/
structure GpuClaim where
  currentModel : Option String := none
  knownModels : List String := []
  requireModel : Option Bool := none
  poolModules : List String := []

def gpuCapability (gpu : GpuClaim) (job : NodeJob) : Bool :=
  let known := gpu.knownModels.filter (· != "")
  let pool := gpu.poolModules.filter (· != "")
  (known.isEmpty || job.requiredModel.all known.contains) &&
    match gpu.requireModel with
    | none => true
    | some true => job.requiredModel.isSome || (!pool.isEmpty && !pool.contains job.nodeModule)
    | some false => job.requiredModel.isNone && (pool.isEmpty || pool.contains job.nodeModule)

def claimNextGpuJob (claim : Claim) (gpu : GpuClaim) : Txn (Option NodeJob) :=
  claimNext claim .gpu (gpuCapability gpu) fun job =>
    [priorityRank job, if job.requiredModel = gpu.currentModel then 0 else 1, job.priority,
      job.createdAt * hostDir claim.hostPriority]

/-! ### Leases and recovery -/

/-- `LeaseRenewer._renew_once` on `workflow_node_jobs`. -/
def renewLease (jobId : Nat) (claimedBy : String) (leaseS : Int) : Txn Bool := fun db =>
  (updateJobs (fun job => job.id == jobId && job.claimedBy == some claimedBy &&
      job.status == .running) fun job => { job with
    leaseExpiresAt := some (db.clock + seconds leaseS) }).map (fun rows => !rows.isEmpty) db

/-- Back to the front of the queue with the lease bookkeeping cleared. -/
def released (job : NodeJob) : NodeJob :=
  { job with
    status := .queued, startedAt := none, claimedBy := none, leaseExpiresAt := none
    priority := min job.priority 10 }

def leaseLapsed (db : Db) (job : NodeJob) : Bool :=
  job.leaseExpiresAt.any fun lease => lease < db.clock

/-- The parent is `running`: back to `queued`. Any other parent: `cancelled`. -/
def reclaimed (db : Db) (job : NodeJob) : NodeJob :=
  if (db.run? job.runId).any fun run => run.status == .running then released job
  else { job with
    status := .cancelled, claimedBy := none, leaseExpiresAt := none, finishedAt := some db.clock }

theorem reclaimed_key (db : Db) (job : NodeJob) : (reclaimed db job).key = job.key := by
  unfold reclaimed
  split <;> rfl

def reclaimExpiredLeases : Txn (List NodeJob) := fun db =>
  updateJobs (fun job => job.status == .running && leaseLapsed db job &&
    (db.run? job.runId).isSome) (reclaimed db) (reclaimed_key db) db

def requeueJobForRetry (jobId : Nat) : Txn (Option NodeJob) :=
  (updateJobs (fun job => job.id == jobId && job.status == .running) fun job =>
    { released job with watchdogRetries := job.watchdogRetries + 1 }).map List.head?

/-- The claiming worker beat within the last thirty seconds. -/
def freshHeartbeat (db : Db) (job : NodeJob) : Bool :=
  db.heartbeats.any fun beat =>
    some beat.hostLabel == job.claimedBy && beat.queue == job.queue.name &&
      beat.project == job.project && db.clock - seconds 30 < beat.lastSeen

def reclaimAllRunningForResume (project : String) : Txn (List NodeJob) := fun db =>
  updateJobs (fun job => job.status == .running && job.project == project &&
    !freshHeartbeat db job) released (by intro; rfl) db

def requeueRunningForWorker (hostLabel : String) (queue : Queue) (project : String) :
    Txn (List NodeJob) :=
  updateJobs (fun job => job.status == .running && job.claimedBy == some hostLabel &&
    job.queue == queue && job.project == project) released

/-! ### Terminal transitions and the outbox -/

/-- The shared shape of the `mark_*` statements: any row that is not yet
completed, failed or cancelled moves, whoever holds it. -/
def mark (jobId : Nat) (change : NodeJob → NodeJob)
    (keeps : ∀ job, (change job).key = job.key := by intro; rfl) : Txn (Option NodeJob) :=
  (updateJobs (fun job => job.id == jobId && !job.status.closed) change keeps).map List.head?

def markCompletedInTxn (jobId : Nat) (contextDelta : Json) : Txn (Option NodeJob) := fun db =>
  mark jobId (fun job => { job with
    status := .completed, finishedAt := some db.clock, contextDelta := contextDelta
    hostLabel := job.hostLabel.or job.claimedBy }) (by intro; rfl) db

def markFailedInTxn (jobId : Nat) (error : String) : Txn (Option NodeJob) := fun db =>
  mark jobId (fun job => { job with
    status := .failed, finishedAt := some db.clock
    error := some (String.ofList (error.toList.take 8000))
    hostLabel := job.hostLabel.or job.claimedBy }) (by intro; rfl) db

def markAwaitingInputInTxn (jobId : Nat) : Txn (Option NodeJob) :=
  mark jobId fun job => { job with status := .awaitingInput }

def enqueueDispatchEventInTxn (runId nodeId : String) (kind : EventKind) : Txn Unit := fun db =>
  .ok ((), { db with
    events := db.events ++ [{ id := db.nextEvent, runId := runId, nodeId := nodeId, kind := kind }]
    nextEvent := db.nextEvent + 1 })

def setInputSpec (runId nodeId : String) (spec : Option Json) : Txn Unit :=
  (updateJobs (fun job => job.runId == runId && job.nodeId == nodeId &&
    job.status == .awaitingInput) fun job => { job with inputSpec := spec }).map fun _ => ()

def setResolvedInputs (jobId : Nat) (resolvedInputs : Dict) : Txn Unit :=
  (updateJobs (·.id == jobId) fun job =>
    { job with resolvedInputs := some resolvedInputs }).map fun _ => ()

def prioritizeNodeJob (jobId : Nat) : Txn (Option NodeJob) :=
  (updateJobs (fun job => job.id == jobId && job.status == .queued) fun job =>
    { job with isPriority := true }).map List.head?

/-! ### Cancellation and deletion -/

def cancelQueuedJobsForRun (runId : String) : Txn Unit := fun db =>
  (updateJobs (fun job => job.runId == runId && job.status == .queued) fun job =>
    { job with status := .cancelled, finishedAt := some db.clock }).map (fun _ => ()) db

def cancelSiblingsAfterFailure (runId : String) : Txn Unit :=
  cancelQueuedJobsForRun runId

def cancelOrphanedQueuedJobs (project : String) : Txn Unit := fun db =>
  (updateJobs (fun job => job.status == .queued && job.project == project &&
      (db.run? job.runId).any fun run => run.status.halted) fun job =>
    { job with status := .cancelled, finishedAt := some db.clock }).map (fun _ => ()) db

/-- Every row of the run that is not completed or skipped, `running` ones included. -/
def deleteNonTerminalJobsForRun (runId : String) : Txn (List String) := fun db =>
  let doomed := fun job : NodeJob => job.runId == runId && !job.status.satisfied
  .ok ((db.jobs.rows.filter doomed).map NodeJob.nodeId, { db with jobs := db.jobs.delete doomed })

end NodeQueue

namespace RunStore

def getRun (runId : String) : Txn (Option RunRow) := fun db => .ok (db.run? runId, db)

/-- The columns the engine itself sets through `update_run`. -/
structure RunUpdate where
  status : RunStatus
  finishedAt : Option Time := none
  error : Option String := none

/-- No guard on the status the row has by now. -/
def updateRun (runId : String) (fields : RunUpdate) : Txn Unit :=
  (updateRuns (·.id == runId) fun run => { run with
    status := fields.status, finishedAt := fields.finishedAt.or run.finishedAt
    error := fields.error.or run.error }).map fun _ => ()

def listQueuedNodeRunIds (project : String) (limit : Nat) (db : Db) : List String :=
  let queued := db.runs.rows.filter fun run =>
    run.mode == .node && run.status == .queued && run.project == project
  let nulls := fun run : RunRow => if run.queuedAt.isNone then (1 : Int) else 0
  let rank := fun run : RunRow => [run.priority, nulls run, run.queuedAt.getD 0]
  ((queued.insertionSort fun first second => !NodeQueue.lexBefore (rank second) (rank first)).take
    limit).map RunRow.id

def listStuckNodeRunIds (project : String) (db : Db) : List String :=
  (db.runs.rows.filter fun run =>
    run.mode == .node && (run.status == .queued || run.status == .running) &&
      run.project == project && !(db.jobsOf run.id).any fun job => job.status.live).map RunRow.id

def reenqueueRunningForResume (project : String) : Txn (List RunRow) := fun db =>
  updateRuns (fun run => run.status == .running && run.project == project)
    (fun run => { run with
      status := .queued, priority := 10, resumeCount := run.resumeCount + 1
      queuedAt := some db.clock }) (by intro; rfl) db

end RunStore

end QueueWorkflows
