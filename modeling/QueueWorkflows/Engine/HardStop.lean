import QueueWorkflows.Engine.IngestStore

/-! The hard stop of a worker by its operator: the jobs in flight go back to the queue and
the process exits. Ingest work is claimed from whatever backend is configured, while the
release picks a table by the name of the queue. -/

namespace QueueWorkflows

open Backend (Op Port)
open Relational (Table)
open IngestStore (Call callTable)

/-- `config.db_backend`. -/
inductive DbBackend where
  | sqlite
  | pg
  | redis
  | mongodb
deriving DecidableEq

/-- `_use_spi`. -/
def DbBackend.useSpi : DbBackend → Bool
  | .redis | .mongodb => true
  | .sqlite | .pg => false

/-- What `configure` lets through, with the provider that `get_backend` builds. -/
structure Deployment (σ ι : Type) where
  cfg : Config
  dbBackend : DbBackend
  provider : Port σ ι
  call : Op → Int → ι
  uuids : Uuids
  /-- `ingest_queues must not reuse the reserved DAG queue names`. -/
  apart : ∀ queue : Queue, queue.name ∉ cfg.ingestQueues

/-- The constructor raises on any other queue. -/
structure ClaimWorker (cfg : Config) where
  host : String
  queue : String
  valid : (∃ node : Queue, node.name = queue) ∨ queue ∈ cfg.ingestQueues

/-- The relational tables, and the provider's own store. -/
structure Stores (σ : Type) where
  db : Db := Db.empty
  ingest : IngestTable := .empty
  spi : σ

/-- A job wherever it is kept. -/
inductive AnyJob where
  | node (job : NodeJob)
  | ingest (job : IngestJob)
  | spi (job : Backend.Job)

inductive JobRef where
  | node (id : Nat)
  | ingest (id : Nat)
  | spi (jobId : String)

namespace AnyJob

/-- Queued, with no lease and no claimer. -/
def Waits : AnyJob → Prop
  | .node job => job.status = .queued ∧ job.leaseExpiresAt = none ∧ job.claimedBy = none
  | .ingest job => job.status = .queued ∧ job.leaseExpiresAt = none ∧ job.claimedBy = none
  | .spi job => job.status = .queued ∧ job.leaseExpiresAt = none ∧ job.claimedBy = none

/-- The rows of the tables go back to the front of the queue; what the provider keeps is not
reached. -/
def release : AnyJob → AnyJob
  | .node job => .node (NodeQueue.released job)
  | .ingest job => .ingest (NodeQueue.releasedIngest job)
  | .spi job => .spi job

/-- The retry counter; `ingest_jobs` has none. -/
def retries : AnyJob → Nat
  | .node job => job.watchdogRetries
  | .ingest _ => 0
  | .spi job => job.attempts

end AnyJob

namespace ClaimWorker

variable {cfg : Config} (worker : ClaimWorker cfg)

/-- `_is_ingest`. -/
def isIngest : Bool :=
  worker.queue != Queue.cpu.name && worker.queue != Queue.gpu.name

/-- The job is running at this worker. The provider's jobs are those of the namespace. -/
def runs : AnyJob → Bool
  | .node job => job.status == .running && job.claimedBy == some worker.host &&
      job.queue.name == worker.queue && job.project == cfg.project
  | .ingest job => worker.isIngest && (job.status == .running &&
      job.claimedBy == some worker.host && job.queue == worker.queue && job.project == cfg.project)
  | .spi job => worker.isIngest && (job.status == .running &&
      job.claimedBy == some worker.host && job.queue == worker.queue)

end ClaimWorker

theorem NodeQueue.released_key (job : NodeJob) : (NodeQueue.released job).key = job.key := rfl

namespace Deployment

variable {σ ι : Type} (deployment : Deployment σ ι)

/-- A call of the facade goes to the one side or to the other. -/
def callIngest (next : Nat) (call : Call) (now : Int) (stores : Stores σ) : Stores σ :=
  if deployment.dbBackend.useSpi then
    { stores with spi :=
        deployment.provider.after stores.spi (deployment.call (call.op deployment.uuids next) now) }
  else { stores with ingest := (callTable deployment.cfg next stores.ingest call now).2 }

/-- The jobs of the deployment. The provider is only there if it is configured. -/
def job? (stores : Stores σ) : JobRef → Option AnyJob
  | .node id => (stores.db.job? id).map .node
  | .ingest id => (stores.ingest.rows.find? fun job => job.id = id).map .ingest
  | .spi jobId =>
    if deployment.dbBackend.useSpi then (deployment.provider.get stores.spi jobId).map .spi
    else none

/-- `requeue_running_for_worker`, with the number of rows. -/
def requeueRunningForWorker (hostLabel queue : String) (stores : Stores σ) :
    Except PyErr (Nat × Stores σ) :=
  let project := deployment.cfg.project
  if deployment.cfg.ingestQueues.contains queue then
    let held := fun job : IngestJob =>
      job.status == .running && job.claimedBy == some hostLabel && job.queue == queue &&
        job.project == project
    .ok ((stores.ingest.rows.filter held).length,
      { stores with
        ingest := NodeQueue.requeueIngestForWorker hostLabel queue project stores.ingest })
  else
    let held := fun job : NodeJob =>
      job.status == .running && job.claimedBy == some hostLabel && job.queue.name == queue &&
        job.project == project
    (updateJobs held NodeQueue.released NodeQueue.released_key stores.db).map fun (rows, db) =>
      (rows.length, { stores with db })

/-- `_clear_busy_ghost`: whatever it raises is logged. -/
def clearBusyGhost (hostLabel queue : String) (stores : Stores σ) : Stores σ :=
  if hostLabel = "" ∨ queue = "" then stores
  else
    match NodeQueue.clearWorkerCurrentModel hostLabel queue deployment.cfg.project stores.db with
    | .ok ((), db) => { stores with db }
    | .error _ => stores

def requeueInflightForControl (worker : ClaimWorker deployment.cfg) (stores : Stores σ) :
    Except PyErr (Nat × Stores σ) := do
  let (rows, stores) ← deployment.requeueRunningForWorker worker.host worker.queue stores
  return (rows, deployment.clearBusyGhost worker.host worker.queue stores)

/-- Nothing runs at the worker any more, its jobs wait with their counters as they were, and
every other job is as it was. -/
structure Stopped (worker : ClaimWorker deployment.cfg) (before after : Stores σ) : Prop where
  none : ∀ place job, deployment.job? after place = some job → worker.runs job = false
  released : ∀ place job, deployment.job? before place = some job → worker.runs job = true →
    ∃ new, deployment.job? after place = some new ∧ new.Waits ∧ new.retries = job.retries
  others : ∀ place, (∀ job, deployment.job? before place = some job → worker.runs job = false) →
    deployment.job? after place = deployment.job? before place

/-! ### The release -/

section Release

variable {deployment} {stores after : Stores σ} {worker : ClaimWorker deployment.cfg}
  {count : Nat} {ref : JobRef} {hostLabel queue : String}

theorem job?_clearBusyGhost :
    deployment.job? (deployment.clearBusyGhost hostLabel queue stores) ref =
      deployment.job? stores ref := by
  unfold clearBusyGhost
  split
  · rfl
  · cases ref <;> rfl

/-- A node worker has its rows in the one table, an ingest worker in the other. -/
theorem kind_of_worker (worker : ClaimWorker deployment.cfg) :
    worker.queue ∉ deployment.cfg.ingestQueues ∧ worker.isIngest = false ∨
      worker.queue ∈ deployment.cfg.ingestQueues ∧ worker.isIngest = true ∧
        ∀ queue : Queue, queue.name ≠ worker.queue := by
  rcases worker.valid with ⟨node, name⟩ | listed
  · left
    constructor
    · exact name ▸ deployment.apart node
    · unfold ClaimWorker.isIngest
      rw [← name]
      cases node <;> decide
  · right
    have other : ∀ queue : Queue, queue.name ≠ worker.queue := by
      intro queue same
      exact deployment.apart queue (same ▸ listed)
    refine ⟨listed, ?_, other⟩
    simp [ClaimWorker.isIngest, (other .cpu).symm, (other .gpu).symm]

/-- The jobs after the rows have been released. -/
theorem job?_requeueRunning
    (done : deployment.requeueRunningForWorker worker.host worker.queue stores = .ok (count, after)) :
    deployment.job? after ref = (deployment.job? stores ref).map fun job =>
      if worker.runs job then job.release else job := by
  unfold requeueRunningForWorker at done
  rcases kind_of_worker worker with ⟨unlisted, node⟩ | ⟨listed, ingest, other⟩
  · rw [if_neg (by simpa using unlisted)] at done
    cases done
    cases ref with
    | node id =>
      refine (congrArg (Option.map AnyJob.node) Db.job?_update).trans ?_
      simp only [job?, Option.map_map]
      congr 1
      funext job
      exact apply_ite AnyJob.node (worker.runs (.node job) = true) _ _
    | ingest id =>
      simp only [job?, Option.map_map]
      congr 1
      funext job
      simp [ClaimWorker.runs, node]
    | spi jobId =>
      simp only [job?]
      split
      · rw [Option.map_map]
        congr 1
        funext job
        simp [ClaimWorker.runs, node]
      · rfl
  · rw [if_pos (by simpa using listed)] at done
    cases done
    cases ref with
    | node id =>
      simp only [job?, Option.map_map]
      congr 1
      funext job
      simp [ClaimWorker.runs, other job.queue]
    | ingest id =>
      refine (congrArg (Option.map AnyJob.ingest)
        (stores.ingest.find?_update _ NodeQueue.releasedIngest (fun _ => rfl) id)).trans ?_
      simp only [job?, Option.map_map]
      congr 1
      funext job
      simp only [Function.comp_apply, ClaimWorker.runs, ingest, Bool.true_and]
      exact apply_ite AnyJob.ingest _ _ _
    | spi jobId =>
      simp only [job?]
      split
      · rw [Option.map_map]
        congr 1
        funext job
        simp only [Function.comp_apply, AnyJob.release, ite_self]
      · rfl

/-- The whole hard stop, whose second statement only touches a heartbeat. -/
theorem job?_requeueInflight
    (done : deployment.requeueInflightForControl worker stores = .ok (count, after)) :
    deployment.job? after ref = (deployment.job? stores ref).map fun job =>
      if worker.runs job then job.release else job := by
  unfold requeueInflightForControl at done
  cases ran : deployment.requeueRunningForWorker worker.host worker.queue stores with
  | error error =>
    rw [ran] at done
    cases done
  | ok outcome =>
    rw [ran] at done
    cases done
    rw [job?_clearBusyGhost]
    exact job?_requeueRunning ran

theorem get_of_job? {row : Backend.Job} (found : deployment.job? stores ref = some (.spi row)) :
    deployment.dbBackend.useSpi = true ∧
      ∃ jobId, deployment.provider.get stores.spi jobId = some row := by
  cases ref with
  | node id => simp [job?] at found
  | ingest id => simp [job?] at found
  | spi jobId =>
    rw [job?] at found
    split at found
    · rename_i spi
      obtain ⟨job, stored, same⟩ := Option.map_eq_some_iff.mp found
      cases same
      exact ⟨spi, jobId, stored⟩
    · cases found

theorem requeueInflight_total (worker : ClaimWorker deployment.cfg) (stores : Stores σ) :
    ∃ count after,
      deployment.requeueInflightForControl worker stores = .ok (count, after) := by
  unfold requeueInflightForControl requeueRunningForWorker
  split <;> exact ⟨_, _, rfl⟩

end Release

/-- A released row is no longer the worker's. -/
theorem released_of_runs {cfg : Config} (worker : ClaimWorker cfg) {job : AnyJob}
    (kept : ∀ row, job ≠ .spi row) :
    job.release.Waits ∧ job.release.retries = job.retries ∧ worker.runs job.release = false := by
  cases job with
  | node job => exact ⟨⟨rfl, rfl, rfl⟩, rfl, rfl⟩
  | ingest job => exact ⟨⟨rfl, rfl, rfl⟩, rfl, Bool.and_false _⟩
  | spi job => exact absurd rfl (kept job)

/-- **Hard stop.** The hard stop of a worker always goes through. It releases everything that
runs there exactly if none of it is kept by the provider that ingest calls are routed to. -/
theorem hard_stop_releases_iff (worker : ClaimWorker deployment.cfg) (stores : Stores σ) :
    ∃ count after, deployment.requeueInflightForControl worker stores = .ok (count, after) ∧
      (deployment.Stopped worker stores after ↔ (deployment.dbBackend.useSpi = true →
        ∀ jobId job, deployment.provider.get stores.spi jobId = some job →
          worker.runs (.spi job) = false)) := by
  obtain ⟨count, after, done⟩ := requeueInflight_total worker stores
  refine ⟨count, after, done, ?_⟩
  constructor
  · intro stopped spi jobId job stored
    have found : deployment.job? after (.spi jobId) = some (.spi job) := by
      rw [job?_requeueInflight done, job?, if_pos spi, stored]
      simp [AnyJob.release]
    exact stopped.none _ _ found
  · intro idle
    have kept : ∀ ref job, deployment.job? stores ref = some job → worker.runs job = true →
        ∀ row, job ≠ .spi row := by
      rintro ref _ found runs row rfl
      obtain ⟨spi, jobId, stored⟩ := get_of_job? found
      rw [idle spi jobId row stored] at runs
      cases runs
    constructor
    · intro ref job found
      rw [job?_requeueInflight done, Option.map_eq_some_iff] at found
      obtain ⟨old, present, rfl⟩ := found
      cases runs : worker.runs old with
      | false => simpa using runs
      | true => simpa using (released_of_runs worker (kept ref old present runs)).2.2
    · intro ref job present runs
      obtain ⟨waits, retries, -⟩ := released_of_runs worker (kept ref job present runs)
      refine ⟨job.release, ?_, waits, retries⟩
      rw [job?_requeueInflight done, present, Option.map_some, if_pos runs]
    · intro ref others
      rw [job?_requeueInflight done]
      cases found : deployment.job? stores ref with
      | none => rfl
      | some job => simp [others job found]

/-! ### Samples -/

def Sample.mongodb : Deployment Backend.Mongo.Db Backend.Mongo.Step where
  cfg := IngestStore.Sample.cfg
  dbBackend := .mongodb
  provider := IngestStore.Sample.mongo
  call := .whole
  uuids := IngestStore.Sample.uuids
  apart queue := by cases queue <;> decide

def Sample.fetcher : ClaimWorker Sample.mongodb.cfg where
  host := "w"
  queue := "fetch"
  valid := .inr (by decide)

/-- A job is enqueued and claimed by the worker. -/
def Sample.claimed : Stores Backend.Mongo.Db :=
  Sample.mongodb.callIngest 1 (.claim "fetch" (some "w") 600) 2
    (Sample.mongodb.callIngest 0 (.enqueue "sync" "fetch") 1 { spi := {} })

/-- The hard stop of the worker leaves its job running. -/
theorem claimed_job_not_released : ¬ ∃ count after,
    Sample.mongodb.requeueInflightForControl Sample.fetcher Sample.claimed = .ok (count, after) ∧
      Sample.mongodb.Stopped Sample.fetcher Sample.claimed after := by
  rintro ⟨count, after, done, stopped⟩
  have running : ((Sample.mongodb.requeueInflightForControl Sample.fetcher Sample.claimed).toOption.bind
      fun outcome => Sample.mongodb.job? outcome.2 (.spi "x")).any Sample.fetcher.runs = true := by
    decide +kernel
  rw [done, Except.toOption, Option.bind_some] at running
  obtain ⟨job, found, runs⟩ := (Option.any_eq_true ..).mp running
  rw [stopped.none _ job found] at runs
  cases runs

end Deployment

end QueueWorkflows
