import QueueWorkflows.Base.Solo
import QueueWorkflows.Backend.Mirror
import QueueWorkflows.Engine.GpuPool
import QueueWorkflows.Engine.LateInputs
import QueueWorkflows.Engine.Outbox

/-! What an executor leaves behind. Each of the three runs the host's code in a `try`
block and settles the row afterwards; what is raised outside the block goes to the claim
loop, and the row stays `running`. -/

namespace QueueWorkflows

open Transaction (Prog)
open Transaction.Prog (Solo commit ofExcept)

namespace PyValue

mutual

/-- Nothing in the value that JSON does not know. -/
def encodable : PyValue → Bool
  | .json _ => true
  | .list items => encodableItems items
  | .dict entries => encodableEntries entries
  | .object .. => false

def encodableItems : List PyValue → Bool
  | [] => true
  | item :: items => item.encodable && encodableItems items

def encodableEntries : List (String × PyValue) → Bool
  | [] => true
  | (_, value) :: entries => value.encodable && encodableEntries entries

end

mutual

theorem isOk_dumps (value : PyValue) : value.dumps.isOk = value.encodable := by
  cases value with
  | json value => rfl
  | list items =>
    rw [encodable, ← isOk_dumpsItems items, dumps]
    cases dumpsItems items <;> rfl
  | dict entries =>
    rw [encodable, ← isOk_dumpsEntries entries, dumps]
    cases dumpsEntries entries <;> rfl
  | object typeName truthy => rfl

theorem isOk_dumpsItems (items : List PyValue) :
    (dumpsItems items).isOk = encodableItems items := by
  cases items with
  | nil => rfl
  | cons item items =>
    rw [encodableItems, ← isOk_dumps item, ← isOk_dumpsItems items, dumpsItems]
    cases item.dumps <;> cases dumpsItems items <;> rfl

theorem isOk_dumpsEntries (entries : List (String × PyValue)) :
    (dumpsEntries entries).isOk = encodableEntries entries := by
  cases entries with
  | nil => rfl
  | cons entry entries =>
    obtain ⟨key, value⟩ := entry
    rw [encodableEntries, ← isOk_dumps value, ← isOk_dumpsEntries entries, dumpsEntries]
    cases value.dumps <;> cases dumpsEntries entries <;> rfl

end

end PyValue

/-! ### Nodes -/

section Nodes

variable {cfg : Config} {host : Host} {job : NodeJob} {db after : Db}

/-- The inputs that the body of a node receives. -/
def inputsAt (cfg : Config) (host : Host) (job : NodeJob) (db : Db) : Except PyErr Dict :=
  if Dispatcher.isInputModule job.nodeModule then .ok job.inputs
  else match contextAt host job.runId db with
    | .error error => .error error
    | .ok context => Dispatcher.reresolve cfg context job.inputs

namespace Executor

/-- The delta that a body gives: the `context_delta` of a dict that has one, the dict itself
without one, and `{}` for what is no dict. -/
def givenDelta (result : PyValue) : PyValue :=
  match result.entries? with
  | none => .dict []
  | some entries => (List.lookup "context_delta" entries).getD result

/-- The finalizer does not raise on the delta, and what it gives is empty or can be encoded. -/
def accepts (host : Host) (result : PyValue) : Bool :=
  match finalized host (givenDelta result) with
  | .error _ => false
  | .ok contextDelta => !contextDelta.truthy || contextDelta.encodable

/-- The inputs resolve, the host's context is entered, and the body raises or returns what
can be stored. -/
def bodyContained (cfg : Config) (host : Host) (job : NodeJob) (db : Db) : Bool :=
  match inputsAt cfg host job db with
  | .error _ => false
  | .ok inputs => (host.enterContext job).isOk &&
      match host.invoke job inputs with
      | .error _ => true
      | .ok result => accepts host result

/-- The model cannot be loaded, or nothing is raised outside the `try` block. -/
def contained (cfg : Config) (host : Host) (hasCache : Bool) (job : NodeJob) (db : Db) : Bool :=
  match nonEmpty job.requiredModel with
  | none => bodyContained cfg host job db
  | some model => !hasCache || match host.requireModel model with
    | .error _ => true
    | .ok _ => bodyContained cfg host job db

end Executor

/-- The row is claimed. -/
def RowHeld (jobId : Nat) (db : Db) : Prop :=
  ∃ row ∈ db.jobs.rows, row.id = jobId ∧ row.status = .running

/-- The terminal mark never raises. -/
theorem markWithEvent_ne_error {jobId : Nat} {change : NodeJob → NodeJob}
    {keeps : ∀ row, (change row).key = row.key} {marking : Txn (Option NodeJob)}
    {runId nodeId : String} {kind : EventKind} {outcome : Executor.Outcome} {error : PyErr}
    (marks : marking db = NodeQueue.mark jobId change keeps db) :
    Executor.markWithEvent marking runId nodeId kind outcome db ≠ .error error := by
  intro failed
  obtain ⟨⟨row, mid⟩, marked⟩ : ∃ value, NodeQueue.mark jobId change keeps db = .ok value :=
    ⟨_, rfl⟩
  simp only [Executor.markWithEvent, bind, StateT.bind, Except.bind, marks.trans marked] at failed
  cases row <;> cases failed

/-- A row that is `running` goes back to the queue. -/
theorem queued_requeue {row : Option NodeJob} (held : RowHeld job.id db)
    (done : NodeQueue.requeueJobForRetry job.id db = .ok (row, after)) :
    ∀ row ∈ after.jobs.rows, row.id = job.id → row.status = .queued := by
  cases done
  obtain ⟨own, here, named, running⟩ := held
  intro row member mine
  obtain ⟨old, present, rfl⟩ := List.mem_map.mp member
  have same : old.id = job.id := by
    split at mine
    · exact mine
    · exact mine
  have only : old = own := Db.eq_of_id present here (same.trans named.symm)
  rw [if_pos (by simp [only, named, running])]
  rfl

/-- Only a row that is `running` is handed back. -/
theorem held_of_requeued {row : Option NodeJob}
    (done : NodeQueue.requeueJobForRetry job.id db = .ok (row, after))
    (taken : row.isSome = true) : RowHeld job.id db := by
  cases done
  obtain ⟨given, first⟩ := Option.isSome_iff_exists.mp taken
  obtain ⟨own, selected, -⟩ := List.mem_map.mp (List.mem_of_head? first)
  obtain ⟨present, matched⟩ := List.mem_filter.mp selected
  simp only [Bool.and_eq_true, beq_iff_eq] at matched
  exact ⟨own, present, matched⟩

end Nodes

/-! ### Ingest jobs -/

section Ingest

variable {cfg : Config} {job : IngestJob} {now : Time} {table : IngestTable}

/-- The task raises, or its result can be encoded. -/
def IngestExecutor.contained (cfg : Config) (job : IngestJob) : Bool :=
  match runTask cfg job with
  | .error _ => true
  | .ok result => result.encodable

end Ingest

/-! ### Over a backend -/

section Backends

open Backend (Port Op Ending Status)

variable {σ ι : Type} {client : Client σ ι} {store : σ} {jobId : String} {now : Int}

/-- The terminal calls of a backend end a job that has not ended. -/
def Ends (port : Port σ ι) (label : Op → Int → ι) : Prop :=
  ∀ store (ending : Ending) now status, port.status store ending.jobId = some status →
    status.terminal = false →
    port.status (port.after store (label (.terminal ending) now)) ending.jobId =
      some ending.status

/-- The handler is a key, and it is unknown, raises, or returns what can be encoded. -/
def GpuPool.contained (client : Client σ ι) (worker : GpuPool.Worker) (job : Backend.Job) : Bool :=
  match worker.handler job with
  | .error _ => false
  | .ok none => true
  | .ok (some fn) =>
    match fn (fieldOrEmpty job "inputs") (field job "output_dir") (fieldOrEmpty job "params") with
    | .error _ => true
    | .ok result => (client.encode result.wrapped).isOk

/-- The backends, with the encoder of the driver. -/
def postgresClient (nameSpace : String) (encode : List (String × PyValue) → Except PyErr Dict) :
    Client Backend.Postgres.Db Backend.Postgres.Step :=
  ⟨Backend.Postgres.port nameSpace, fun op now => ⟨op, now, []⟩, encode⟩

def mongoClient (nameSpace : String) (encode : List (String × PyValue) → Except PyErr Dict) :
    Client Backend.Mongo.Db Backend.Mongo.Step :=
  ⟨Backend.Mongo.port nameSpace, .whole, encode⟩

/-- The scripts take the result as the text of `json.dumps`. -/
def redisClient (tostring : Int → Int) (nameSpace : String) :
    Client Backend.Redis.Server Backend.Redis.Step :=
  ⟨Backend.Redis.port tostring nameSpace, fun op now => ⟨op, now⟩, PyValue.dumpsEntries⟩

end Backends

namespace Sample

/-- A driver that takes what JSON takes. -/
def mongo : Client Backend.Mongo.Db Backend.Mongo.Step := mongoClient "" PyValue.dumpsEntries

end Sample

end QueueWorkflows
