import Mathlib.Data.List.Sort
import Mathlib.Logic.Function.Basic
import QueueWorkflows.Backend.Port

/-! The Redis adapter. A job is a hash, its place in the queue a member of one
sorted set and its lease a member of another; each script is one atomic step.
Keys are text, the namespace, the kind of key and a name in a row. -/

namespace QueueWorkflows.Backend.Redis

structure JobHash where
  id : String
  nameSpace : String
  queue : String
  status : Status
  payload : Dict
  priority : Int
  attempts : Nat
  claimedBy : String
  leaseExpiresAt : Option Int
  result : Option Dict
  error : String
  createdAt : Int
  updatedAt : Int

/-- A member `%020d|id` of the queue set at `key`. Equal scores are in the order of
the members' text, which is that of the zero-padded sequence numbers. -/
structure Member where
  key : String
  score : Int
  seq : Int
  jobId : String
deriving DecidableEq

def Member.before (first second : Member) : Prop :=
  first.score < second.score ∨ first.score = second.score ∧
    (first.seq < second.seq ∨ first.seq = second.seq ∧ first.jobId ≤ second.jobId)

instance : DecidableRel Member.before := fun _ _ => inferInstanceAs (Decidable (_ ∨ _))

/-- A member of the running set at `key`, scored by its lease's end. -/
structure Lease where
  key : String
  score : Int
  jobId : String
deriving DecidableEq

def Lease.before (first second : Lease) : Prop :=
  first.score < second.score ∨ first.score = second.score ∧ first.jobId ≤ second.jobId

instance : DecidableRel Lease.before := fun _ _ => inferInstanceAs (Decidable (_ ∨ _))

/-- The server, one part for each kind of value. The members of all sorted sets of
a kind are kept in one list, in their order. -/
structure Server where
  counters : String → Int := fun _ => 0
  hashes : String → Option JobHash := fun _ => none
  members : List Member := []
  leases : List Lease := []
  sets : String → List String := fun _ => []
  /-- The `events` list, with the hash of each event in place of its number. -/
  events : String → List Event := fun _ => []

namespace Server

def incr (key : String) (server : Server) : Int × Server :=
  (server.counters key + 1, { server with
    counters := Function.update server.counters key (server.counters key + 1) })

def decr (key : String) (server : Server) : Server :=
  { server with counters := Function.update server.counters key (server.counters key - 1) }

def hset (key : String) (hash : JobHash) (server : Server) : Server :=
  { server with hashes := Function.update server.hashes key (some hash) }

def zadd (member : Member) (server : Server) : Server :=
  let others := server.members.filter fun other =>
    !(other.key == member.key && other.seq == member.seq && other.jobId == member.jobId)
  { server with members := others.orderedInsert Member.before member }

def lease (member : Lease) (server : Server) : Server :=
  let others := server.leases.filter fun other =>
    !(other.key == member.key && other.jobId == member.jobId)
  { server with leases := others.orderedInsert Lease.before member }

def zrem (key jobId : String) (server : Server) : Server :=
  { server with leases := server.leases.filter fun other =>
      !(other.key == key && other.jobId == jobId) }

def sadd (key name : String) (server : Server) : Server :=
  { server with sets := Function.update server.sets key ((server.sets key).insert name) }

def rpush (key : String) (event : Event) (server : Server) : Server :=
  { server with events := Function.update server.events key (server.events key ++ [event]) }

end Server

/-- The first member of the set at `key`, and the sets without it. -/
def popMin (key : String) : List Member → Option (Member × List Member)
  | [] => none
  | member :: rest =>
    if member.key = key then some (member, rest)
    else (popMin key rest).map fun (popped, left) => (popped, member :: left)

def jobKey (keys jobId : String) : String := keys ++ "job:" ++ jobId
def queueKey (keys queue : String) : String := keys ++ "q:" ++ queue
def runningKey (keys queue : String) : String := keys ++ "running:" ++ queue
def countKey (keys queue : String) (status : Status) : String :=
  keys ++ "cnt:" ++ queue ++ ":" ++ status.text

/-- `_job_from_dict`. -/
def toJob (hash : JobHash) : Job where
  id := hash.id
  queue := hash.queue
  nameSpace := hash.nameSpace
  status := hash.status
  payload := hash.payload
  priority := hash.priority
  attempts := hash.attempts
  claimedBy := nonEmpty (some hash.claimedBy)
  leaseExpiresAt := hash.leaseExpiresAt
  result := hash.result
  error := nonEmpty (some hash.error)
  createdAt := hash.createdAt
  updatedAt := hash.updatedAt

/-- What `HSET` makes of a key that holds nothing: every field it is not given reads
as empty. -/
def noHash : JobHash where
  id := ""
  nameSpace := ""
  queue := ""
  status := .queued
  payload := []
  priority := 0
  attempts := 0
  claimedBy := ""
  leaseExpiresAt := none
  result := none
  error := ""
  createdAt := 0
  updatedAt := 0

def JobHash.requeued (now : Int) (hash : JobHash) : JobHash :=
  { hash with
    status := .queued
    claimedBy := ""
    leaseExpiresAt := none
    updatedAt := now }

section Scripts

variable (keys nameSpace : String)

/-- `_LUA_ENQUEUE`. -/
def luaEnqueue (queue : String) (payload : Dict) (jobId : String) (priority now : Int)
    (server : Server) : Server :=
  let (seq, server) := server.incr (keys ++ "seq")
  let server := server.hset (jobKey keys jobId) {
    id := jobId, nameSpace, queue, status := .queued, payload, priority, attempts := 0,
    claimedBy := "", leaseExpiresAt := none, result := none, error := "",
    createdAt := now, updatedAt := now }
  let server := server.zadd ⟨queueKey keys queue, -priority, seq, jobId⟩
  let server := server.sadd (keys ++ "queues") queue
  (server.incr (countKey keys queue .queued)).2

/-- `_LUA_CLAIM`. Lua's `tostring` rounds the lease that is written to the hash. -/
def luaClaim (tostring : Int → Int) (queue worker : String) (leaseS now : Int)
    (server : Server) : Option JobHash × Server :=
  match popMin (queueKey keys queue) server.members with
  | none => (none, server)
  | some (member, members) =>
    let server := { server with members }
    let hash := (server.hashes (jobKey keys member.jobId)).getD noHash
    let leaseAt := now + leaseS
    let hash := { hash with
      status := .running
      claimedBy := worker
      leaseExpiresAt := some (tostring leaseAt)
      attempts := hash.attempts + 1
      updatedAt := now }
    let server := server.hset (jobKey keys member.jobId) hash
    let server := server.lease ⟨runningKey keys queue, leaseAt, member.jobId⟩
    let server := server.decr (countKey keys queue .queued)
    (some hash, (server.incr (countKey keys queue .running)).2)

/-- `_LUA_RENEW`. -/
def luaRenew (tostring : Int → Int) (jobId worker : String) (leaseS now : Int)
    (server : Server) : Bool × Server :=
  match server.hashes (jobKey keys jobId) with
  | none => (false, server)
  | some hash =>
    if hash.status = .running ∧ hash.claimedBy = worker then
      let leaseAt := now + leaseS
      let server := server.hset (jobKey keys jobId) { hash with
        leaseExpiresAt := some (tostring leaseAt)
        updatedAt := now }
      (true, server.lease ⟨runningKey keys hash.queue, leaseAt, jobId⟩)
    else (false, server)

/-- The event part of `_LUA_TERMINAL`: an empty event type stands for no event. -/
def appendEvent (ending : Ending) (queue : String) (now : Int) (server : Server) : Server :=
  match ending.event with
  | none => server
  | some (eventType, detail) =>
    if eventType = "" then server
    else
      let (eseq, server) := server.incr (keys ++ "eventseq")
      server.rpush (keys ++ "events") {
        seq := eseq.toNat, jobId := ending.jobId, nameSpace, queue, eventType,
        detail := detail.getD [], createdAt := now }

/-- `_LUA_TERMINAL`. -/
def luaTerminal (ending : Ending) (now : Int) (server : Server) : Option JobHash × Server :=
  match server.hashes (jobKey keys ending.jobId) with
  | none => (none, server)
  | some hash =>
    if hash.status.terminal then (none, server)
    else
      let ended := { hash with
        status := ending.status
        result := ending.result
        error := ending.error.getD ""
        updatedAt := now }
      let server := server.hset (jobKey keys ending.jobId) ended
      let server := server.zrem (runningKey keys hash.queue) ending.jobId
      let server := server.decr (countKey keys hash.queue hash.status)
      let server := (server.incr (countKey keys hash.queue ending.status)).2
      (some ended, appendEvent keys nameSpace ending hash.queue now server)

/-- `_LUA_REQUEUE`. -/
def luaRequeue (jobId : String) (now : Int) (server : Server) : Option JobHash × Server :=
  match server.hashes (jobKey keys jobId) with
  | none => (none, server)
  | some hash =>
    if hash.status.terminal then (none, server)
    else
      let server := server.hset (jobKey keys jobId) (hash.requeued now)
      let server := server.zrem (runningKey keys hash.queue) jobId
      let (seq, server) := server.incr (keys ++ "seq")
      let server := server.zadd ⟨queueKey keys hash.queue, -hash.priority, seq, jobId⟩
      let server := server.decr (countKey keys hash.queue hash.status)
      (some (hash.requeued now), (server.incr (countKey keys hash.queue .queued)).2)

/-- The loop body of `_LUA_RECLAIM`. -/
def reclaimOne (queue : String) (now : Int) (found : List String × Server) (jobId : String) :
    List String × Server :=
  match found.2.hashes (jobKey keys jobId) with
  | none => found
  | some hash =>
    if hash.status = .running then
      let server := found.2.hset (jobKey keys jobId) (hash.requeued now)
      let server := server.zrem (runningKey keys queue) jobId
      let (seq, server) := server.incr (keys ++ "seq")
      let server := server.zadd ⟨queueKey keys queue, -hash.priority, seq, jobId⟩
      let server := server.decr (countKey keys queue .running)
      (found.1 ++ [jobId], (server.incr (countKey keys queue .queued)).2)
    else found

/-- `_LUA_RECLAIM`. -/
def luaReclaim (now : Int) (found : List String × Server) (queue : String) :
    List String × Server :=
  let expired := found.2.leases.filter fun member =>
    member.key == runningKey keys queue && member.score ≤ now
  (expired.map Lease.jobId).foldl (reclaimOne keys queue now) found

end Scripts

/-- `reclaim_expired`: one script for each queue. -/
def reclaimExpired (keys : String) (queue : Option String) (now : Int) (server : Server) :
    List String × Server :=
  let queues := match queue with
    | some queue => [queue]
    | none => server.sets (keys ++ "queues")
  queues.foldl (luaReclaim keys now) ([], server)

structure Step where
  op : Op
  now : Int

/-- `f"qw:{self.namespace}:"`. -/
def keysOf (nameSpace : String) : String := "qw:" ++ nameSpace ++ ":"

section Calls

variable (tostring : Int → Int) (nameSpace : String)

def call (server : Server) (step : Step) : Reply × Server :=
  let keys := keysOf nameSpace
  match step.op with
  | .enqueue queue payload jobId priority uuid =>
    let id := newId jobId uuid
    (.enqueued id, luaEnqueue keys nameSpace queue payload id priority step.now server)
  | .claim queue worker leaseS =>
    (luaClaim keys tostring queue worker leaseS step.now server).map (.job ∘ Option.map toJob) id
  | .renewLease jobId worker leaseS =>
    (luaRenew keys tostring jobId worker leaseS step.now server).map .renewed id
  | .reclaimExpired queue => (reclaimExpired keys queue step.now server).map .reclaimed id
  | .requeueForRetry jobId =>
    (luaRequeue keys jobId step.now server).map (.job ∘ Option.map toJob) id
  | .terminal ending =>
    (luaTerminal keys nameSpace ending step.now server).map (.job ∘ Option.map toJob) id

def get (server : Server) (jobId : String) : Option Job :=
  (server.hashes (jobKey (keysOf nameSpace) jobId)).map toJob

/-- The adapter bound to one namespace. -/
def port : Port Server Step where
  op := Step.op
  call := call tostring nameSpace
  get := get nameSpace
  events server := server.events (keysOf nameSpace ++ "events")

end Calls

end QueueWorkflows.Backend.Redis
