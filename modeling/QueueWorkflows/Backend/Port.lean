import Mathlib.Order.Basic
import QueueWorkflows.Base.Pool
import QueueWorkflows.Engine.Value

/-! The storage port: a durable work queue with a transactional outbox. Each
backend implements the same calls; a run is any sequence of them, by any clients
and at any clock readings. -/

namespace QueueWorkflows.Backend

open Transaction (Reach)

inductive Status where
  | queued
  | running
  | completed
  | failed
deriving DecidableEq

/-- `TERMINAL_STATUSES`: the states a row can never leave. -/
def Status.terminal : Status → Bool
  | .completed | .failed => true
  | .queued | .running => false

theorem Status.eq_running {status : Status} (isOpen : status.terminal = false)
    (claimed : status ≠ .queued) : status = .running := by
  cases status with
  | queued => exact absurd rfl claimed
  | running => rfl
  | completed | failed => cases isOpen

def Status.text : Status → String
  | .queued => "queued"
  | .running => "running"
  | .completed => "completed"
  | .failed => "failed"

structure Job where
  id : String
  queue : String
  nameSpace : String
  status : Status
  payload : Dict
  priority : Int
  attempts : Nat
  claimedBy : Option String
  leaseExpiresAt : Option Int
  result : Option Dict
  error : Option String
  createdAt : Int
  updatedAt : Int

structure Event where
  seq : Nat
  jobId : String
  nameSpace : String
  queue : String
  eventType : String
  detail : Dict
  createdAt : Int

/-- What a terminal call writes: its job, the status, result and error, and the
event that goes with it, if the call is one of the outbox pair. -/
structure Ending where
  jobId : String
  status : Status
  result : Option Dict := none
  error : Option String := none
  event : Option (String × Option Dict) := none
  terminal : status.terminal = true := by rfl

/-- The calls of the port. `uuid` is what `uuid.uuid4().hex` yields if it is asked. -/
inductive Op where
  | enqueue (queue : String) (payload : Dict) (jobId : Option String) (priority : Int)
      (uuid : String)
  | claim (queue worker : String) (leaseS : Int)
  | renewLease (jobId worker : String) (leaseS : Int)
  | reclaimExpired (queue : Option String)
  | requeueForRetry (jobId : String)
  | terminal (ending : Ending)

namespace Op

def markCompleted (jobId : String) (result : Option Dict := none) : Op :=
  .terminal { jobId, status := .completed, result }

def markFailed (jobId : String) (error : Option String := none) : Op :=
  .terminal { jobId, status := .failed, error }

def completeWithEvent (jobId eventType : String) (result detail : Option Dict := none) : Op :=
  .terminal { jobId, status := .completed, result, event := some (eventType, detail) }

def failWithEvent (jobId eventType : String) (error : Option String := none)
    (detail : Option Dict := none) : Op :=
  .terminal { jobId, status := .failed, error, event := some (eventType, detail) }

end Op

/-- `job_id or uuid.uuid4().hex`. -/
def newId (jobId : Option String) (uuid : String) : String :=
  (nonEmpty jobId).getD uuid

/-- The calls that take a running job back to the queue. -/
def Op.recovers : Op → Bool
  | .reclaimExpired _ | .requeueForRetry _ => true
  | _ => false

inductive Reply where
  | enqueued (jobId : String)
  | job (row : Option Job)
  | renewed (done : Bool)
  | reclaimed (jobIds : List String)
  | raised (error : PyErr)
  /-- The call has not returned yet. -/
  | pending

/-- A backend: its atomic steps, the call each of them belongs to, and its reads. -/
structure Port (σ ι : Type) where
  op : ι → Op
  call : σ → ι → Reply × σ
  get : σ → String → Option Job
  events : σ → List Event

namespace Port

variable {σ ι : Type} (port : Port σ ι) (state : σ) (step : ι) (jobId : String)

def after : σ := (port.call state step).2

def reply : Reply := (port.call state step).1

def status : Option Status := (port.get state jobId).map Job.status

/-- What absorption is about: a job's status and its result. -/
def standing : Option (Status × Option Dict) :=
  (port.get state jobId).map fun row => (row.status, row.result)

def outbox : List Event := (port.events state).filter fun event => event.jobId = jobId

/-- The step is an enqueue that returns this id. -/
def admits : Bool :=
  match port.op step, port.reply state step with
  | .enqueue .., .enqueued id => id == jobId
  | _, _ => false

/-- The step is a claim that returns this job. -/
def hands : Bool :=
  match port.op step, port.reply state step with
  | .claim .., .job (some row) => row.id == jobId
  | _, _ => false

/-- The step takes this job from 'running' back to 'queued'. -/
def returns : Bool :=
  (port.op step).recovers && port.status state jobId == some .running &&
    port.status (port.after state step) jobId == some .queued

end Port

/-- How often a job was enqueued, handed out by a claim, and taken back. -/
structure Tally where
  enqueued : Nat := 0
  claimed : Nat := 0
  returned : Nat := 0

structure Audited (σ : Type) where
  state : σ
  tally : String → Tally := fun _ => {}

namespace Port

variable {σ ι : Type} (port : Port σ ι)

def move (state : σ) (step : ι) : Option σ := some (port.after state step)

def audit (audited : Audited σ) (step : ι) : Option (Audited σ) :=
  some {
    state := port.after audited.state step
    tally := fun jobId => {
      enqueued := (audited.tally jobId).enqueued + (port.admits audited.state step jobId).toNat
      claimed := (audited.tally jobId).claimed + (port.hands audited.state step jobId).toNat
      returned := (audited.tally jobId).returned +
        (port.returns audited.state step jobId).toNat } }

/-- Along every run whose steps meet `ok`: a job once terminal keeps its status and
result, and no job has more than one outbox event. -/
def Absorbs (ok : σ → ι → Bool) (first : σ) : Prop :=
  ∀ state later, Reach port.move ok first state → Reach port.move ok state later →
    (∀ jobId row, port.get state jobId = some row → row.status.terminal = true →
      ∃ kept, port.get later jobId = some kept ∧ kept.status = row.status ∧
        kept.result = row.result) ∧
    ∀ jobId, (port.outbox later jobId).length ≤ 1

/-- Along every run whose steps meet `ok`: claims have returned a job at most as
often as it was enqueued or taken back, and no claim returns a running job,
whatever its lease. -/
def ClaimsOnce (ok : σ → ι → Bool) (first : σ) : Prop :=
  ∀ audited, Reach port.audit (fun audited => ok audited.state) { state := first } audited →
    ∀ jobId,
      (audited.tally jobId).claimed ≤
        (audited.tally jobId).enqueued + (audited.tally jobId).returned ∧
      ∀ step, ok audited.state step = true → port.hands audited.state step jobId = true →
        port.status audited.state jobId ≠ some .running

end Port

end QueueWorkflows.Backend
