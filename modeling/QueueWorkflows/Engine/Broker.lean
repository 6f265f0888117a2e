import QueueWorkflows.Engine.System

/-! One broker shared by several projects. Each project runs its own orchestrator and
workers against the same tables, under its own configuration; a row's `project` column,
or that of the run it belongs to, says whose it is. Beside the node queue the broker
has the flat ingest queue, and the sweeps that flag workers and rows. -/

namespace QueueWorkflows

open Relational (Table)
open Transaction (Pool)

/-- A row of `ingest_jobs`. -/
structure IngestJob where
  id : Nat
  taskName : String
  queue : String
  reason : String := "tick"
  args : Dict := []
  project : String
  status : JobStatus := .queued
  priority : Int := 100
  claimedBy : Option String := none
  leaseExpiresAt : Option Time := none
  result : Option Json := none
  error : Option String := none
  createdAt : Time
  startedAt : Option Time := none
  finishedAt : Option Time := none

abbrev IngestTable := Table IngestJob IngestJob.id Eq

/-- A list of names as Python prints it, sorted. -/
def sortedNames (names : List String) : String :=
  let sorted := names.insertionSort fun first second => first ≤ second
  "[" ++ String.intercalate ", " (sorted.map fun name => "'" ++ name ++ "'") ++ "]"

namespace NodeQueue

/-! ### The ingest queue -/

/-- What `enqueue_ingest_job` checks before it writes. -/
def checkIngest (cfg : Config) (taskName queue : String) : Except PyErr Unit :=
  if !cfg.ingestQueues.contains queue then
    .error ⟨.valueError, "ingest queue must be in " ++ sortedNames cfg.ingestQueues ++ ", got '" ++
      queue ++ "'"⟩
  else if (cfg.ingestTaskMap.lookup taskName).isNone then
    .error ⟨.valueError, "task_name must be a registered ingest task " ++
      sortedNames (cfg.ingestTaskMap.map Prod.fst) ++ ", got '" ++ taskName ++
      "' (register via queue_workflows.register_ingest_task)"⟩
  else .ok ()

/-- The arguments of `claim_next_ingest_job`, with the rows others hold locked. -/
structure IngestClaim where
  queue : String
  host : Option String := none
  leaseS : Int := 600
  locked : List Nat := []

def takenIngest (claim : IngestClaim) (now : Time) (job : IngestJob) : IngestJob :=
  { job with
    status := .running, startedAt := some now, claimedBy := claim.host
    leaseExpiresAt := some (now + seconds claim.leaseS) }

def claimNextIngestJob (claim : IngestClaim) (project : String) (now : Time)
    (table : IngestTable) : Option (IngestJob × IngestTable) :=
  let claimable := fun job : IngestJob =>
    job.queue == claim.queue && job.status == .queued && job.project == project &&
      !claim.locked.contains job.id
  (firstBy (fun job => [job.priority, job.createdAt]) (table.rows.filter claimable)).map
    fun chosen => (takenIngest claim now chosen,
      table.update (·.id == chosen.id) (takenIngest claim now) fun _ => rfl)

def renewIngestLease (jobId : Nat) (host : Option String) (leaseS : Int) (now : Time)
    (table : IngestTable) : IngestTable :=
  let ours := fun job : IngestJob =>
    job.id == jobId && job.status == .running && host.isSome && job.claimedBy == host
  let renewed := fun job : IngestJob =>
    { job with leaseExpiresAt := some (now + seconds leaseS) }
  table.update ours renewed fun _ => rfl

def markIngestCompleted (jobId : Nat) (result : Json) (now : Time) (table : IngestTable) :
    IngestTable :=
  let completed := fun job : IngestJob =>
    { job with status := .completed, finishedAt := some now, result := some result }
  table.update (fun job => job.id == jobId && !job.status.closed) completed fun _ => rfl

def markIngestFailed (jobId : Nat) (error : String) (now : Time) (table : IngestTable) :
    IngestTable :=
  let failed := fun job : IngestJob =>
    { job with
      status := .failed, finishedAt := some now
      error := some (String.ofList (error.toList.take 8000)) }
  table.update (fun job => job.id == jobId && !job.status.closed) failed fun _ => rfl

/-- Back to the front of the queue with the lease bookkeeping cleared. -/
def releasedIngest (job : IngestJob) : IngestJob :=
  { job with
    status := .queued, startedAt := none, claimedBy := none, leaseExpiresAt := none
    priority := min job.priority 10 }

def ingestLapsed (now : Time) (job : IngestJob) : Bool :=
  job.status == .running && job.leaseExpiresAt.any fun lease => lease < now

/-- Broker-wide, like the reclaim of the node queue. -/
def reclaimExpiredIngestLeases (now : Time) (table : IngestTable) : IngestTable :=
  table.update (ingestLapsed now) releasedIngest fun _ => rfl

/-- `requeue_running_for_worker` on an ingest queue. -/
def requeueIngestForWorker (hostLabel queue project : String) (table : IngestTable) :
    IngestTable :=
  let held := fun job : IngestJob =>
    job.status == .running && job.claimedBy == some hostLabel && job.queue == queue &&
      job.project == project
  table.update held releasedIngest fun _ => rfl

/-! ### Flags -/

/-- The running rows a worker still owns. -/
def heldBy (db : Db) (beat : WorkerHeartbeat) : List NodeJob :=
  db.jobs.rows.filter fun job =>
    job.claimedBy == some beat.hostLabel && job.queue.name == beat.queue &&
      job.project == beat.project && job.status == .running

/-- `flag_stale_workers_holding_running_jobs`, with the flagged rows' counts. -/
def flagStaleWorkers (staleAfterS : Int) (project : String) :
    Txn (List (WorkerHeartbeat × Nat)) := fun db =>
  let since := db.clock - seconds (max 1 staleAfterS)
  let stale := fun beat : WorkerHeartbeat =>
    beat.project == project && decide (beat.lastSeen < since) &&
      beat.lastFlaggedDeadAt.all (fun flagged => decide (flagged < since)) &&
      !(heldBy db beat).isEmpty
  let flag := fun beat : WorkerHeartbeat =>
    if stale beat then { beat with lastFlaggedDeadAt := some db.clock } else beat
  .ok ((db.heartbeats.filter stale).map fun beat => (beat, (heldBy db beat).length),
    { db with heartbeats := db.heartbeats.map flag })

/-- The project's GPU workers that beat within the window. -/
def liveGpu (staleS : Int) (project : String) (db : Db) : List WorkerHeartbeat :=
  db.heartbeats.filter fun beat =>
    beat.queue == "gpu" && beat.project == project &&
      decide (db.clock - seconds staleS < beat.lastSeen)

def fitsSome (fleet : List WorkerHeartbeat) (job : NodeJob) : Bool :=
  fleet.any fun beat => job.requiredModel.any beat.fitsModels.contains

def unassignableReason (fleet : List WorkerHeartbeat) (model : String) : String :=
  "no live GPU machine can hold model " ++ model ++ " — none of " ++ toString fleet.length ++
    " live GPU machine(s) has enough VRAM (max " ++
    (((fleet.filterMap WorkerHeartbeat.vramTotalMb).max?.map toString).getD "unknown") ++ "MB)"

/-- Un-flag what some live worker fits by now, and what has left the queue. -/
def clearUnassignable (staleS : Int) (project : String) : Txn (List NodeJob) := fun db =>
  updateJobs (fun job =>
      job.unassignableAt.isSome && job.project == project &&
        (job.status != .queued || fitsSome (liveGpu staleS project db) job))
    (fun job => { job with unassignableAt := none, unassignableReason := none })
    (by intro; rfl) db

/-- Flag the queued rows that no live worker fits, if there is a live worker at all. -/
def raiseUnassignable (staleS : Int) (project : String) : Txn (List NodeJob) := fun db =>
  let fleet := liveGpu staleS project db
  updateJobs (fun job =>
      job.queue == .gpu && job.project == project && job.status == .queued &&
        job.requiredModel.isSome && job.unassignableAt.isNone && !fleet.isEmpty &&
        !fitsSome fleet job)
    (fun job => { job with
      unassignableAt := some db.clock
      unassignableReason := job.requiredModel.map (unassignableReason fleet) })
    (by intro; rfl) db

def flagUnassignableGpuJobs (staleS : Int) (project : String) : Txn (List NodeJob) := do
  let _ ← clearUnassignable staleS project
  raiseUnassignable staleS project

/-- `clear_worker_current_model` with `mark_stale`: the row drops out of the live window. -/
def clearWorkerCurrentModel (hostLabel queue project : String) : Txn Unit := fun db =>
  let age := fun beat : WorkerHeartbeat =>
    if beat.hostLabel == hostLabel && beat.queue == queue && beat.project == project then
      { beat with lastSeen := db.clock - seconds 100 }
    else beat
  .ok ((), { db with heartbeats := db.heartbeats.map age })

end NodeQueue

namespace IngestExecutor

/-- `_run_task`: a result that is no dict is wrapped in one. -/
def runTask (cfg : Config) (job : IngestJob) : Except PyErr PyValue :=
  let reason := if job.reason = "" then "tick" else job.reason
  match cfg.ingestTaskMap.lookup job.taskName with
  | none => .error ⟨.valueError, "unknown ingest task_name '" ++ job.taskName ++ "' (registered: " ++
      sortedNames (cfg.ingestTaskMap.map Prod.fst) ++
      "; register via queue_workflows.register_ingest_task)"⟩
  | some task => (task reason job.args).map fun result =>
    if result.entries?.isSome then result else .dict [("result", result)]

/-- `execute_ingest_job`: the task, then the terminal mark. A result that cannot be
encoded raises out of the mark, before anything is written. -/
def executeIngestJob (cfg : Config) (job : IngestJob) (now : Time) (table : IngestTable) :
    IngestTable :=
  match runTask cfg job with
  | .ok result =>
    match result.dumps with
    | .ok result => NodeQueue.markIngestCompleted job.id result now table
    | .error _ => table
  | .error error => NodeQueue.markIngestFailed job.id error.describe now table

end IngestExecutor

/-- The shared store, every path in flight with the project of the process it runs in,
and the ingest executions in flight with theirs. -/
structure Broker where
  sys : Sys
  owners : List String
  ingest : IngestTable
  nextIngest : Nat
  fetches : List (String × IngestJob)

/-- What a client of the broker does. -/
inductive Operation where
  | node (label : Label)
  | flagStaleWorkers (staleAfterS : Int)
  | flagUnassignable (staleS : Int)
  | clearWorkerCurrentModel (hostLabel queue : String)
  | enqueueIngest (taskName queue reason : String) (priority : Int) (args : Dict)
  | claimIngest (claim : NodeQueue.IngestClaim)
  | executeIngest (index : Nat)
  | tripIngest (index : Nat) (error : String)
  | renewIngest (index : Nat) (leaseS : Int)
  | reclaimIngest
  | requeueIngestForWorker (hostLabel queue : String)

namespace Broker

def empty : Broker where
  sys := Sys.empty
  owners := []
  ingest := Table.empty
  nextIngest := 0
  fetches := []

def store (broker : Broker) : Db := broker.sys.store

/-- A path that starts runs in the process that started it. -/
def ownersAfter (project : String) (owners : List String) (before after : Sys) :
    Label → List String
  | .crash index => owners.eraseIdx index
  | _ => if before.actors.length < after.actors.length then owners ++ [project] else owners

def commit {α : Type} (broker : Broker) (act : Txn α) : Option Broker :=
  (broker.sys.commit act).map fun sys => { broker with sys := sys }

/-- One operation of the client with this configuration. -/
def step (broker : Broker) : Config × Operation → Option Broker
  | (cfg, .node label) => (QueueWorkflows.step cfg broker.sys label).map fun sys =>
      { broker with
        sys := sys, owners := ownersAfter cfg.project broker.owners broker.sys sys label }
  | (cfg, .flagStaleWorkers staleAfterS) =>
    broker.commit (NodeQueue.flagStaleWorkers staleAfterS cfg.project)
  | (cfg, .flagUnassignable staleS) =>
    broker.commit (NodeQueue.flagUnassignableGpuJobs staleS cfg.project)
  | (cfg, .clearWorkerCurrentModel hostLabel queue) =>
    broker.commit (NodeQueue.clearWorkerCurrentModel hostLabel queue cfg.project)
  | (cfg, .enqueueIngest taskName queue reason priority args) =>
    match NodeQueue.checkIngest cfg taskName queue with
    | .error _ => none
    | .ok () => (broker.ingest.insert? {
        id := broker.nextIngest, taskName, queue, reason, args, project := cfg.project, priority
        createdAt := broker.store.clock }).map fun table =>
      { broker with ingest := table, nextIngest := broker.nextIngest + 1 }
  | (cfg, .claimIngest claim) =>
    (NodeQueue.claimNextIngestJob claim cfg.project broker.store.clock broker.ingest).map
      fun (job, table) =>
        { broker with ingest := table, fetches := broker.fetches ++ [(cfg.project, job)] }
  | (cfg, .executeIngest index) => broker.fetches[index]?.map fun (_, job) =>
      { broker with
        ingest := IngestExecutor.executeIngestJob cfg job broker.store.clock broker.ingest
        fetches := broker.fetches.eraseIdx index }
  | (_, .tripIngest index error) => broker.fetches[index]?.map fun (_, job) =>
      { broker with
        ingest := NodeQueue.markIngestFailed job.id error broker.store.clock broker.ingest
        fetches := broker.fetches.eraseIdx index }
  | (_, .renewIngest index leaseS) => broker.fetches[index]?.map fun (_, job) =>
      { broker with ingest :=
          NodeQueue.renewIngestLease job.id job.claimedBy leaseS broker.store.clock broker.ingest }
  | (_, .reclaimIngest) => some { broker with
      ingest := NodeQueue.reclaimExpiredIngestLeases broker.store.clock broker.ingest }
  | (cfg, .requeueIngestForWorker hostLabel queue) =>
    if cfg.ingestQueues.contains queue then some { broker with
      ingest := NodeQueue.requeueIngestForWorker hostLabel queue cfg.project broker.ingest }
    else none

end Broker

end QueueWorkflows
