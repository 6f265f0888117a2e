import Mathlib.Algebra.Group.Int.Defs
import Mathlib.Data.List.Sort
import QueueWorkflows.Base.Table
import QueueWorkflows.Backend.Port

/-! The reference adapter: one row a job in `qw_jobs`, one row an event in
`qw_events`, and every call one transaction. -/

namespace QueueWorkflows.Backend

/-! The `SET` clauses that the row stores share. -/

/-- `SET status = 'running', claimed_by = worker, lease_expires_at = now + lease,
attempts = attempts + 1`. -/
def Job.start (worker : String) (leaseS now : Int) (row : Job) : Job :=
  { row with
    status := .running
    claimedBy := some worker
    leaseExpiresAt := some (now + leaseS)
    attempts := row.attempts + 1
    updatedAt := now }

def Job.extend (leaseS now : Int) (row : Job) : Job :=
  { row with
    leaseExpiresAt := some (now + leaseS)
    updatedAt := now }

/-- `SET status = 'queued', claimed_by = NULL, lease_expires_at = NULL`. -/
def Job.release (now : Int) (row : Job) : Job :=
  { row with
    status := .queued
    claimedBy := none
    leaseExpiresAt := none
    updatedAt := now }

def Job.finish (ending : Ending) (now : Int) (row : Job) : Job :=
  { row with
    status := ending.status
    result := ending.result
    error := ending.error
    updatedAt := now }

@[simp] theorem Job.id_start (worker : String) (leaseS now : Int) (row : Job) :
    (row.start worker leaseS now).id = row.id := rfl

@[simp] theorem Job.id_extend (leaseS now : Int) (row : Job) :
    (row.extend leaseS now).id = row.id := rfl

@[simp] theorem Job.id_release (now : Int) (row : Job) : (row.release now).id = row.id := rfl

@[simp] theorem Job.id_finish (ending : Ending) (now : Int) (row : Job) :
    (row.finish ending now).id = row.id := rfl

/-- A running row of the queue, if one is named, whose lease ran out before `now`. -/
def Job.lapsed (queue : Option String) (now : Int) (row : Job) : Bool :=
  row.status == .running && row.leaseExpiresAt.any (· < now) && queue.all (row.queue == ·)

namespace Postgres

structure Db where
  jobs : Relational.Table Job Job.id Eq := .empty
  events : List Event := []
  /-- The last value of the `qw_events.seq` sequence. -/
  seq : Nat := 0

/-- `locked` are the ids other transactions hold locks on: `SKIP LOCKED` passes them by. -/
structure Step where
  op : Op
  now : Int
  locked : List String := []

/-- `ORDER BY priority DESC, created_at, id`. -/
def claimsBefore (first second : Job) : Prop :=
  second.priority < first.priority ∨ first.priority = second.priority ∧
    (first.createdAt < second.createdAt ∨ first.createdAt = second.createdAt ∧
      first.id ≤ second.id)

instance : DecidableRel claimsBefore := fun _ _ => inferInstanceAs (Decidable (_ ∨ _))

section Calls

variable (nameSpace : String)

def owns (jobId : String) (row : Job) : Bool :=
  row.id == jobId && row.nameSpace == nameSpace

/-- `priority` is an `INTEGER` column. -/
def enqueue (queue : String) (payload : Dict) (jobId : String) (priority now : Int) (db : Db) :
    Reply × Db :=
  if priority < -2 ^ 31 ∨ 2 ^ 31 ≤ priority then
    (.raised ⟨.other "NumericValueOutOfRange", "integer out of range"⟩, db)
  else
    match db.jobs.insert? {
      id := jobId, queue, nameSpace, status := .queued, payload, priority, attempts := 0,
      claimedBy := none, leaseExpiresAt := none, result := none, error := none,
      createdAt := now, updatedAt := now } with
    | some jobs => (.enqueued jobId, { db with jobs })
    | none => (.raised ⟨.integrityError,
        "duplicate key value violates unique constraint \"qw_jobs_pkey\""⟩, db)

def claimable (queue : String) (locked : List String) (row : Job) : Bool :=
  row.nameSpace == nameSpace && row.queue == queue && row.status == .queued &&
    !locked.contains row.id

def claim (queue worker : String) (leaseS now : Int) (locked : List String) (db : Db) :
    Reply × Db :=
  match ((db.jobs.rows.filter (claimable nameSpace queue locked)).insertionSort
      claimsBefore).head? with
  | none => (.job none, db)
  | some row => (.job (some (row.start worker leaseS now)), { db with
      jobs := db.jobs.update (·.id == row.id) (Job.start worker leaseS now)
        (Job.id_start worker leaseS now) })

def renews (jobId worker : String) (row : Job) : Bool :=
  owns nameSpace jobId row && row.status == .running && row.claimedBy == some worker

def renewLease (jobId worker : String) (leaseS now : Int) (db : Db) : Reply × Db :=
  (.renewed (db.jobs.rows.any (renews nameSpace jobId worker)), { db with
    jobs := db.jobs.update (renews nameSpace jobId worker) (Job.extend leaseS now)
      (Job.id_extend leaseS now) })

def lapsed (queue : Option String) (now : Int) (row : Job) : Bool :=
  row.nameSpace == nameSpace && row.lapsed queue now

def reclaimExpired (queue : Option String) (now : Int) (db : Db) : Reply × Db :=
  (.reclaimed ((db.jobs.rows.filter (lapsed nameSpace queue now)).map Job.id), { db with
    jobs := db.jobs.update (lapsed nameSpace queue now) (Job.release now)
      (Job.id_release now) })

/-- `WHERE id = … AND namespace = … AND status NOT IN ('completed', 'failed')`. -/
def openRow (jobId : String) (row : Job) : Bool :=
  owns nameSpace jobId row && !row.status.terminal

def requeueForRetry (jobId : String) (now : Int) (db : Db) : Reply × Db :=
  (.job ((db.jobs.rows.find? (openRow nameSpace jobId)).map (Job.release now)), { db with
    jobs := db.jobs.update (openRow nameSpace jobId) (Job.release now) (Job.id_release now) })

/-- `_mark_in`: the terminal `UPDATE`, with the row it returns. -/
def markIn (ending : Ending) (now : Int) (db : Db) : Option Job × Db :=
  ((db.jobs.rows.find? (openRow nameSpace ending.jobId)).map (Job.finish ending now), { db with
    jobs := db.jobs.update (openRow nameSpace ending.jobId) (Job.finish ending now)
      (Job.id_finish ending now) })

/-- `_mark` and `_terminal_with_event`: without a row there is no event either. -/
def terminal (ending : Ending) (now : Int) (db : Db) : Reply × Db :=
  match markIn nameSpace ending now db with
  | (none, _) => (.job none, db)
  | (some row, marked) =>
    match ending.event with
    | none => (.job (some row), marked)
    | some (eventType, detail) => (.job (some row), { marked with
        seq := marked.seq + 1
        events := marked.events ++ [{
          seq := marked.seq + 1, jobId := ending.jobId, nameSpace, queue := row.queue,
          eventType, detail := detail.getD [], createdAt := now }] })

def call (db : Db) (step : Step) : Reply × Db :=
  match step.op with
  | .enqueue queue payload jobId priority uuid =>
    enqueue nameSpace queue payload (newId jobId uuid) priority step.now db
  | .claim queue worker leaseS => claim nameSpace queue worker leaseS step.now step.locked db
  | .renewLease jobId worker leaseS => renewLease nameSpace jobId worker leaseS step.now db
  | .reclaimExpired queue => reclaimExpired nameSpace queue step.now db
  | .requeueForRetry jobId => requeueForRetry nameSpace jobId step.now db
  | .terminal ending => terminal nameSpace ending step.now db

def get (db : Db) (jobId : String) : Option Job :=
  (db.jobs.rows.find? fun row => row.id = jobId).filter fun row => row.nameSpace == nameSpace

/-- The adapter bound to one namespace. -/
def port : Port Db Step where
  op := Step.op
  call := call nameSpace
  get := get nameSpace
  events db := db.events.filter fun event => event.nameSpace == nameSpace

end Calls

end Postgres

end QueueWorkflows.Backend
