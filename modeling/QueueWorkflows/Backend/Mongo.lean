import QueueWorkflows.Backend.Postgres

/-! The MongoDB adapter: one document a job, each namespace a database of its own.
A job is claimed, taken back or ended by one atomic document operation; an event
is inserted in the transaction that ends its job. Taking a counter value and
inserting the document are two operations, and a sweep is one for each document. -/

namespace QueueWorkflows.Backend.Mongo

structure Document where
  job : Job
  seq : Nat

def Document.id (document : Document) : String := document.job.id

@[simp] theorem Document.id_mk (job : Job) (seq : Nat) : Document.id ⟨job, seq⟩ = job.id := rfl

def Document.update (change : Job → Job) (document : Document) : Document :=
  { document with job := change document.job }

theorem Document.id_update {change : Job → Job} (keeps : ∀ row, (change row).id = row.id)
    (document : Document) : (document.update change).id = document.id :=
  keeps document.job

structure Db where
  jobs : Relational.Table Document Document.id Eq := .empty
  events : List Event := []
  /-- The two documents of `counters`. -/
  seq : Nat := 0
  eventseq : Nat := 0

/-- A whole call, or one operation of a call that has several. -/
inductive Step where
  | whole (op : Op) (now : Int)
  | nextSeq (queue : String) (payload : Dict) (jobId : Option String) (priority : Int)
      (uuid : String)
  | insertOne (seq : Nat) (queue : String) (payload : Dict) (jobId : Option String)
      (priority : Int) (uuid : String) (now : Int)
  | reclaimNext (queue : Option String) (cutoff : Int) (jobId : String) (now : Int)

/-- `sort=[("priority", DESCENDING), ("seq", ASCENDING)]`. -/
def claimsBefore (first second : Document) : Prop :=
  second.job.priority < first.job.priority ∨
    first.job.priority = second.job.priority ∧ first.seq ≤ second.seq

instance : DecidableRel claimsBefore := fun _ _ => inferInstanceAs (Decidable (_ ∨ _))

def updateJobs (selects : Job → Bool) (change : Job → Job)
    (keeps : ∀ row, (change row).id = row.id) (db : Db) : Db :=
  { db with
    jobs := db.jobs.update (fun document => selects document.job) (Document.update change)
      (Document.id_update keeps) }

/-- `_next("seq")`. -/
def nextSeq (db : Db) : Nat × Db :=
  (db.seq + 1, { db with seq := db.seq + 1 })

section Calls

variable (nameSpace : String)

/-- `int(priority)` must fit a BSON integer. -/
def insertOne (seq : Nat) (queue : String) (payload : Dict) (jobId : String) (priority now : Int)
    (db : Db) : Reply × Db :=
  if priority < -2 ^ 63 ∨ 2 ^ 63 ≤ priority then
    (.raised ⟨.other "OverflowError", "MongoDB can only handle up to 8-byte ints"⟩, db)
  else
    match db.jobs.insert? ⟨{
      id := jobId, queue, nameSpace, status := .queued, payload, priority, attempts := 0,
      claimedBy := none, leaseExpiresAt := none, result := none, error := none,
      createdAt := now, updatedAt := now }, seq⟩ with
    | some jobs => (.enqueued jobId, { db with jobs })
    | none => (.raised ⟨.other "DuplicateKeyError", "E11000 duplicate key error"⟩, db)

def enqueue (queue : String) (payload : Dict) (jobId : String) (priority now : Int) (db : Db) :
    Reply × Db :=
  let (seq, db) := nextSeq db
  insertOne nameSpace seq queue payload jobId priority now db

def claimable (queue : String) (document : Document) : Bool :=
  document.job.queue == queue && document.job.status == .queued

def claim (queue worker : String) (leaseS now : Int) (db : Db) : Reply × Db :=
  match ((db.jobs.rows.filter (claimable queue)).insertionSort claimsBefore).head? with
  | none => (.job none, db)
  | some document => (.job (some (document.job.start worker leaseS now)),
      updateJobs (·.id == document.id) (Job.start worker leaseS now)
        (Job.id_start worker leaseS now) db)

def renews (jobId worker : String) (row : Job) : Bool :=
  row.id == jobId && row.status == .running && row.claimedBy == some worker

def renewLease (jobId worker : String) (leaseS now : Int) (db : Db) : Reply × Db :=
  (.renewed (db.jobs.rows.any fun document => renews jobId worker document.job),
    updateJobs (renews jobId worker) (Job.extend leaseS now) (Job.id_extend leaseS now) db)

/-- One turn of the sweep: the document it finds is one that matches. -/
def reclaimNext (queue : Option String) (cutoff : Int) (jobId : String) (now : Int) (db : Db) :
    Db :=
  updateJobs (fun row => row.id == jobId && row.lapsed queue cutoff) (Job.release now)
    (Job.id_release now) db

/-- The sweep on its own: each matching document is requeued in one of its turns. -/
def reclaimExpired (queue : Option String) (now : Int) (db : Db) : Reply × Db :=
  let lapsed := (db.jobs.rows.filter fun document => document.job.lapsed queue now).map Document.id
  (.reclaimed lapsed, lapsed.foldl (fun db jobId => reclaimNext queue now jobId now db) db)

/-- `{"_id": job_id, "status": {"$nin": ["completed", "failed"]}}`. -/
def openRow (jobId : String) (row : Job) : Bool :=
  row.id == jobId && !row.status.terminal

def requeueForRetry (jobId : String) (now : Int) (db : Db) : Reply × Db :=
  (.job ((db.jobs.rows.find? fun document => openRow jobId document.job).map fun document =>
      document.job.release now),
    updateJobs (openRow jobId) (Job.release now) (Job.id_release now) db)

/-- `_mark` and `_terminal_with_event`, whose event commits with the document or not at all. -/
def terminal (ending : Ending) (now : Int) (db : Db) : Reply × Db :=
  match db.jobs.rows.find? fun document => openRow ending.jobId document.job with
  | none => (.job none, db)
  | some document =>
    let row := document.job.finish ending now
    let marked := updateJobs (openRow ending.jobId) (Job.finish ending now)
      (Job.id_finish ending now) db
    match ending.event with
    | none => (.job (some row), marked)
    | some (eventType, detail) => (.job (some row), { marked with
        eventseq := marked.eventseq + 1
        events := marked.events ++ [{
          seq := marked.eventseq + 1, jobId := ending.jobId, nameSpace, queue := row.queue,
          eventType, detail := detail.getD [], createdAt := now }] })

def call (db : Db) : Step → Reply × Db
  | .whole op now =>
    match op with
    | .enqueue queue payload jobId priority uuid =>
      enqueue nameSpace queue payload (newId jobId uuid) priority now db
    | .claim queue worker leaseS => claim queue worker leaseS now db
    | .renewLease jobId worker leaseS => renewLease jobId worker leaseS now db
    | .reclaimExpired queue => reclaimExpired queue now db
    | .requeueForRetry jobId => requeueForRetry jobId now db
    | .terminal ending => terminal nameSpace ending now db
  | .nextSeq .. => (.pending, (nextSeq db).2)
  | .insertOne seq queue payload jobId priority uuid now =>
    insertOne nameSpace seq queue payload (newId jobId uuid) priority now db
  | .reclaimNext queue cutoff jobId now => (.pending, reclaimNext queue cutoff jobId now db)

def Step.op : Step → Op
  | .whole op _ => op
  | .nextSeq queue payload jobId priority uuid => .enqueue queue payload jobId priority uuid
  | .insertOne _ queue payload jobId priority uuid _ => .enqueue queue payload jobId priority uuid
  | .reclaimNext queue _ _ _ => .reclaimExpired queue

def get (db : Db) (jobId : String) : Option Job :=
  (db.jobs.rows.find? fun document => document.id = jobId).map Document.job

/-- The adapter, in the database of one namespace. -/
def port : Port Db Step where
  op := Step.op
  call := call nameSpace
  get := get
  events := Db.events

end Calls

end QueueWorkflows.Backend.Mongo
