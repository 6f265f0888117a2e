import Mathlib.Data.Multiset.Basic
import QueueWorkflows.Backend.Mongo
import QueueWorkflows.Backend.Redis

/-! Several namespaces on one server: the heartbeats and controls of the port, its
reads, and the encodings by which each adapter keeps the namespaces apart. -/

namespace QueueWorkflows.Backend

/-- `namespace or DEFAULT_NAMESPACE`. -/
def scope (nameSpace : String) : String := (nonEmpty (some nameSpace)).getD "default"

/-- What `workers` returns of a heartbeat. -/
structure Worker where
  host : String
  queue : String
  currentModel : Option String
  lastSeen : Int
deriving DecidableEq

structure Control where
  host : String
  queue : String
  desiredState : String
  stopPolicy : String
  requestedBy : Option String
  updatedAt : Int

def Control.state (control : Option Control) : String :=
  if control.map Control.desiredState = some "off" then "off" else "on"

/-- The calls that write: a step of the port, a heartbeat, an operator's control. -/
inductive Call (ι : Type) where
  | port (step : ι)
  | heartbeat (worker : Worker) (staleAfterS : Int)
  | setControl (control : Control)

/-- All reads of one namespace. A claim counts as one by what it returns; the rows
of `workers` come in no particular order. -/
@[ext]
structure Reads where
  get : String → Option Job
  claim : (queue worker : String) → (leaseS now : Int) → (locked : List String) → Reply
  counts : (queue : String) → Status → Nat
  events : (since limit : Nat) → List Event
  workers : (queue : String) → (now : Int) → Multiset Worker
  desiredState : (host queue : String) → String

/-- A server, and what a backend bound to a namespace does and reads on it. -/
structure Tenancy (σ ι : Type) where
  call : String → σ → Call ι → σ
  reads : String → σ → Reads

/-- No sequence of calls under the one namespace is seen by a read under the other. -/
def Tenancy.Isolated {σ ι : Type} (tenancy : Tenancy σ ι) (writer reader : String) : Prop :=
  ∀ (server : σ) (calls : List (Call ι)),
    tenancy.reads reader (calls.foldl (tenancy.call writer) server) = tenancy.reads reader server

/-- `INSERT … ON CONFLICT DO UPDATE`: the row takes the place of the one it clashes with. -/
def upsert {α : Type} (clashes : α → Bool) (row : α) (rows : List α) : List α :=
  if rows.any clashes then rows.map fun other => if clashes other then row else other
  else rows ++ [row]

/-! ### Postgres: a column -/

namespace Postgres

/-- A row of `qw_workers` or `qw_controls`, with its namespace. -/
structure Scoped (α : Type) where
  nameSpace : String
  row : α

structure Server where
  db : Db := {}
  workers : List (Scoped Worker) := []
  controls : List (Scoped Control) := []

section Calls

variable (nameSpace : String)

def heartbeat (worker : Worker) (server : Server) : Server :=
  { server with
    workers := upsert (fun other => other.nameSpace == nameSpace &&
        other.row.host == worker.host && other.row.queue == worker.queue)
      ⟨nameSpace, worker⟩ server.workers }

def setControl (control : Control) (server : Server) : Server :=
  { server with
    controls := upsert (fun other => other.nameSpace == nameSpace &&
        other.row.host == control.host && other.row.queue == control.queue)
      ⟨nameSpace, control⟩ server.controls }

def counts (db : Db) (queue : String) (status : Status) : Nat :=
  (db.jobs.rows.filter fun row => row.nameSpace == nameSpace && row.queue == queue &&
    row.status == status).length

def events (db : Db) (since limit : Nat) : List Event :=
  (db.events.filter fun event => event.nameSpace == nameSpace && since < event.seq).take limit

/-- The heartbeats of the last 60 seconds. -/
def workers (server : Server) (queue : String) (now : Int) : List Worker :=
  (server.workers.filter fun other => other.nameSpace == nameSpace && other.row.queue == queue &&
    now - 60 < other.row.lastSeen).map Scoped.row

def desiredState (server : Server) (host queue : String) : String :=
  Control.state ((server.controls.find? fun other => other.nameSpace == nameSpace &&
    other.row.host == host && other.row.queue == queue).map Scoped.row)

end Calls

def tenancy : Tenancy Server Step where
  call nameSpace server := fun
    | .port step => { server with db := (call (scope nameSpace) server.db step).2 }
    | .heartbeat worker _ => heartbeat (scope nameSpace) worker server
    | .setControl control => setControl (scope nameSpace) control server
  reads nameSpace server := {
    get := get (scope nameSpace) server.db
    claim := fun queue worker leaseS now locked =>
      (call (scope nameSpace) server.db ⟨.claim queue worker leaseS, now, locked⟩).1
    counts := counts (scope nameSpace) server.db
    events := events (scope nameSpace) server.db
    workers := fun queue now => workers (scope nameSpace) server queue now
    desiredState := desiredState (scope nameSpace) server }

end Postgres

/-! ### MongoDB: a database -/

namespace Mongo

/-- `"qw_" + re.sub(r"[^A-Za-z0-9_]", "_", namespace)[:48]`. -/
def dbName (nameSpace : String) : String :=
  "qw_" ++ String.ofList ((nameSpace.toList.map fun char =>
    if char.isAlphanum || char == '_' then char else '_').take 48)

/-- One database. Its TTL index removes old heartbeats behind the callers' backs. -/
structure Database where
  db : Db := {}
  workers : List Worker := []
  controls : List Control := []

structure Server where
  databases : String → Database := fun _ => {}

/-- The `_id` of a heartbeat is `f"{queue}:{host}"`. -/
def docId (worker : Worker) : String := worker.queue ++ ":" ++ worker.host

def Database.call (nameSpace : String) (database : Database) : Call Step → Database
  | .port step => { database with db := (Mongo.call nameSpace database.db step).2 }
  | .heartbeat worker _ => { database with
      workers := upsert (fun other => docId other == docId worker) worker database.workers }
  | .setControl control => { database with
      controls := upsert (fun other => other.host == control.host && other.queue == control.queue)
        control database.controls }

def counts (db : Db) (queue : String) (status : Status) : Nat :=
  (db.jobs.rows.filter fun document =>
    document.job.queue == queue && document.job.status == status).length

/-- A limit of 0 is none. -/
def events (nameSpace : String) (db : Db) (since limit : Nat) : List Event :=
  let found := db.events.filter fun event => since < event.seq
  (if limit = 0 then found else found.take limit).map fun event => { event with nameSpace }

def tenancy : Tenancy Server Step where
  call nameSpace server request :=
    let name := dbName (scope nameSpace)
    { server with
      databases := Function.update server.databases name
        ((server.databases name).call (scope nameSpace) request) }
  reads nameSpace server :=
    let database := server.databases (dbName (scope nameSpace))
    { get := get database.db
      claim := fun queue worker leaseS now _ =>
        (call (scope nameSpace) database.db (.whole (.claim queue worker leaseS) now)).1
      counts := counts database.db
      events := events (scope nameSpace) database.db
      workers := fun queue _ => database.workers.filter fun worker => worker.queue == queue
      desiredState := fun host queue => Control.state (database.controls.find? fun control =>
        control.host == host && control.queue == queue) }

end Mongo

/-! ### Redis: a prefix of the keys -/

namespace Redis

/-- What a key of a namespace is for. -/
inductive Key where
  | seq
  | queues
  | eventseq
  | events
  | job (jobId : String)
  | queue (name : String)
  | running (name : String)
  | count (name : String) (status : Status)
  | event (number : Nat)
  | worker (name host : String)
  | control (host name : String)

def Key.suffix : Key → String
  | .seq => "seq"
  | .queues => "queues"
  | .eventseq => "eventseq"
  | .events => "events"
  | .job jobId => "job:" ++ jobId
  | .queue name => "q:" ++ name
  | .running name => "running:" ++ name
  | .count name status => "cnt:" ++ name ++ ":" ++ status.text
  | .event number => "event:" ++ toString number
  | .worker name host => "worker:" ++ name ++ ":" ++ host
  | .control host name => "control:" ++ host ++ ":" ++ name

/-- `_k`. -/
def Key.text (keys : String) (key : Key) : String := keys ++ key.suffix

/-- The parts of a `MATCH` pattern. -/
inductive Token where
  | star
  | any
  | class (negated : Bool) (ranges : List (Char × Char))
  | literal (char : Char)

/-- Redis glob syntax. The first argument is the `[…]` class that is open, if one is. -/
def globTokens : Option (Bool × List (Char × Char)) → List Char → List Token
  | none, [] => []
  | none, '*' :: rest => .star :: globTokens none rest
  | none, '?' :: rest => .any :: globTokens none rest
  | none, '[' :: '^' :: rest => globTokens (some (true, [])) rest
  | none, '[' :: rest => globTokens (some (false, [])) rest
  | none, '\\' :: char :: rest => .literal char :: globTokens none rest
  | none, char :: rest => .literal char :: globTokens none rest
  | some (negated, ranges), [] => [.class negated ranges]
  | some (negated, ranges), ']' :: rest => .class negated ranges :: globTokens none rest
  | some (negated, ranges), '\\' :: char :: rest =>
    globTokens (some (negated, (char, char) :: ranges)) rest
  | some (negated, ranges), first :: '-' :: last :: rest =>
    globTokens (some (negated, (first, last) :: (last, first) :: ranges)) rest
  | some (negated, ranges), char :: rest => globTokens (some (negated, (char, char) :: ranges)) rest

def matchTokens : List Token → List Char → Bool
  | [], text => text.isEmpty
  | .star :: rest, text => text.tails.any (matchTokens rest)
  | .any :: rest, _ :: text => matchTokens rest text
  | .class negated ranges :: rest, char :: text =>
    (ranges.any fun range => range.1 ≤ char && char ≤ range.2) != negated && matchTokens rest text
  | .literal expected :: rest, char :: text => expected == char && matchTokens rest text
  | _ :: _, [] => false

def globs (pattern text : String) : Bool := matchTokens (globTokens none pattern.toList) text.toList

/-- `self._k(f"worker:{queue}:*")`. -/
def workersPattern (keys queue : String) : String := keys ++ "worker:" ++ queue ++ ":*"

/-- A heartbeat's hash, with the time at which the key expires. -/
structure WorkerHash where
  key : String
  worker : Worker
  expiresAt : Int

structure ControlHash where
  key : String
  control : Control

/-- The server, with the hashes of heartbeats and controls. -/
structure Keyspace where
  server : Server := {}
  workers : List WorkerHash := []
  controls : List ControlHash := []

section Calls

variable (keys : String)

def heartbeat (worker : Worker) (staleAfterS : Int) (space : Keyspace) : Keyspace :=
  let hash : WorkerHash :=
    { key := Key.text keys (.worker worker.queue worker.host)
      worker := { worker with currentModel := nonEmpty worker.currentModel }
      expiresAt := worker.lastSeen + max 1 staleAfterS }
  { space with workers := upsert (fun other => other.key == hash.key) hash space.workers }

def setControl (control : Control) (space : Keyspace) : Keyspace :=
  let hash : ControlHash := ⟨Key.text keys (.control control.host control.queue), control⟩
  { space with controls := upsert (fun other => other.key == hash.key) hash space.controls }

/-- `max(0, int(v or 0))`. -/
def counts (server : Server) (queue : String) (status : Status) : Nat :=
  (server.counters (countKey keys queue status)).toNat

def events (nameSpace : String) (server : Server) (since limit : Nat) : List Event :=
  (((server.events (keys ++ "events")).filter fun event => since < event.seq).take limit).map
    fun event => { event with nameSpace }

/-- `scan_iter` over the keys that match. A key of another kind can match only where
the namespace or the queue has glob characters; such keys are not looked at here. -/
def workers (space : Keyspace) (queue : String) (now : Int) : List Worker :=
  (space.workers.filter fun hash =>
    globs (workersPattern keys queue) hash.key && now < hash.expiresAt).map WorkerHash.worker

def desiredState (space : Keyspace) (host queue : String) : String :=
  Control.state ((space.controls.find? fun hash =>
    hash.key == Key.text keys (.control host queue)).map ControlHash.control)

end Calls

def tenancy (tostring : Int → Int) : Tenancy Keyspace Step where
  call nameSpace space := fun
    | .port step => { space with server := (call tostring (scope nameSpace) space.server step).2 }
    | .heartbeat worker staleAfterS => heartbeat (keysOf (scope nameSpace)) worker staleAfterS space
    | .setControl control => setControl (keysOf (scope nameSpace)) control space
  reads nameSpace space :=
    let keys := keysOf (scope nameSpace)
    { get := get (scope nameSpace) space.server
      claim := fun queue worker leaseS now _ =>
        (call tostring (scope nameSpace) space.server ⟨.claim queue worker leaseS, now⟩).1
      counts := counts keys space.server
      events := events keys (scope nameSpace) space.server
      workers := fun queue now => workers keys space queue now
      desiredState := desiredState keys space }

end Redis

end QueueWorkflows.Backend
