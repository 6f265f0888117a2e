import QueueWorkflows.Backend.Lifecycle
import QueueWorkflows.Backend.Redis

/-! Redis keeps a job's place in the queue apart from its status. A token is a
queue member of a job; each script is described by what it does to the standing,
the tokens and the events of every single job. -/

namespace QueueWorkflows.Backend.Redis

open Transaction (Reach follow)

def tokens (server : Server) (jobId : String) : Nat :=
  server.members.countP fun member => member.jobId == jobId

/-- What a job's hash says of its id, status and result. -/
def face (keys : String) (server : Server) (jobId : String) :
    Option (String × Status × Option Dict) :=
  (server.hashes (jobKey keys jobId)).map fun hash => (hash.id, hash.status, hash.result)

/-- The events of a job in the outbox. -/
def posted (keys : String) (server : Server) (jobId : String) : List Event :=
  (server.events (keys ++ "events")).filter fun event => event.jobId = jobId

section Commands

variable {keys : String} {server : Server} {jobId other : String}

/-! Only `ZADD` and `ZPOPMIN` on a queue move tokens, and only `HSET` moves faces. -/

@[simp] theorem tokens_incr (key : String) : tokens (server.incr key).2 jobId = tokens server jobId :=
  rfl

@[simp] theorem tokens_decr (key : String) : tokens (server.decr key) jobId = tokens server jobId :=
  rfl

@[simp] theorem tokens_hset (key : String) (hash : JobHash) :
    tokens (server.hset key hash) jobId = tokens server jobId := rfl

@[simp] theorem tokens_zrem (key : String) : tokens (server.zrem key other) jobId = tokens server jobId :=
  rfl

@[simp] theorem tokens_lease (member : Lease) :
    tokens (server.lease member) jobId = tokens server jobId := rfl

@[simp] theorem tokens_sadd (key name : String) :
    tokens (server.sadd key name) jobId = tokens server jobId := rfl

@[simp] theorem tokens_rpush (key : String) (event : Event) :
    tokens (server.rpush key event) jobId = tokens server jobId := rfl

@[simp] theorem face_incr (key : String) : face keys (server.incr key).2 jobId = face keys server jobId :=
  rfl

@[simp] theorem face_decr (key : String) : face keys (server.decr key) jobId = face keys server jobId :=
  rfl

@[simp] theorem face_zadd (member : Member) :
    face keys (server.zadd member) jobId = face keys server jobId := rfl

@[simp] theorem face_zrem (key : String) :
    face keys (server.zrem key other) jobId = face keys server jobId := rfl

@[simp] theorem face_lease (member : Lease) :
    face keys (server.lease member) jobId = face keys server jobId := rfl

@[simp] theorem face_sadd (key name : String) :
    face keys (server.sadd key name) jobId = face keys server jobId := rfl

@[simp] theorem face_rpush (key : String) (event : Event) :
    face keys (server.rpush key event) jobId = face keys server jobId := rfl

theorem jobKey_inj : jobKey keys jobId = jobKey keys other ↔ jobId = other := by
  simp [jobKey]

theorem face_hset_self {hash : JobHash} :
    face keys (server.hset (jobKey keys jobId) hash) jobId =
      some (hash.id, hash.status, hash.result) := by
  simp [face, Server.hset]

theorem face_hset_other {hash : JobHash} (apart : other ≠ jobId) :
    face keys (server.hset (jobKey keys other) hash) jobId = face keys server jobId := by
  have different : jobKey keys jobId ≠ jobKey keys other := fun same =>
    apart (jobKey_inj.mp same).symm
  simp [face, Server.hset, Function.update_of_ne different]

theorem popMin_perm {key : String} {members left : List Member} {popped : Member}
    (found : popMin key members = some (popped, left)) : members.Perm (popped :: left) := by
  induction members generalizing left with
  | nil => cases found
  | cons member rest ih =>
    simp only [popMin] at found
    split at found
    · cases found
      exact .refl _
    · obtain ⟨⟨first, remaining⟩, deeper, same⟩ := Option.map_eq_some_iff.mp found
      cases same
      exact ((ih deeper).cons member).trans (.swap _ _ _)

theorem tokens_zadd_other {member : Member} (apart : member.jobId ≠ jobId) :
    tokens (server.zadd member) jobId = tokens server jobId := by
  unfold tokens Server.zadd
  rw [(List.perm_orderedInsert _ _ _).countP_eq, List.countP_cons, List.countP_filter]
  simp only [beq_iff_eq, apart, if_false, Nat.add_zero]
  refine List.countP_congr fun other _ => ?_
  simp only [beq_iff_eq, Bool.and_eq_true, Bool.not_eq_true', Bool.and_eq_false_iff]
  constructor
  · exact And.left
  · intro mine
    refine ⟨mine, .inr ?_⟩
    rw [mine]
    simpa using fun same : jobId = member.jobId => apart same.symm

theorem tokens_zadd_le (member : Member) (server : Server) (jobId : String) :
    tokens (server.zadd member) jobId ≤ tokens server jobId + 1 := by
  unfold tokens Server.zadd
  rw [(List.perm_orderedInsert _ _ _).countP_eq, List.countP_cons]
  have fewer := List.Sublist.countP_le (p := fun other : Member => other.jobId == jobId)
    (List.filter_sublist (l := server.members) (p := fun other => !(other.key == member.key &&
      other.seq == member.seq && other.jobId == member.jobId)))
  split <;> omega

end Commands

section Sweep

variable {keys : String} {server middle after : Server} {jobId : String}

/-- A sweep leaves a job alone, or takes it back from 'running' with one more token. -/
def Swept (keys : String) (server after : Server) (jobId : String) : Prop :=
  face keys after jobId = face keys server jobId ∧ tokens after jobId = tokens server jobId ∨
  ∃ id result, face keys server jobId = some (id, .running, result) ∧
    face keys after jobId = some (id, .queued, result) ∧
    tokens after jobId ≤ tokens server jobId + 1

theorem Swept.trans (first : Swept keys server middle jobId) (second : Swept keys middle after jobId) :
    Swept keys server after jobId := by
  rcases first with ⟨face, tokens⟩ | ⟨id, result, running, queued, more⟩
  · rcases second with ⟨face', tokens'⟩ | ⟨id, result, running, queued, more⟩
    · exact .inl ⟨face'.trans face, tokens'.trans tokens⟩
    · exact .inr ⟨id, result, face ▸ running, queued, tokens ▸ more⟩
  · rcases second with ⟨face', tokens'⟩ | ⟨id', result', running', -, -⟩
    · exact .inr ⟨id, result, running, face'.trans queued, tokens' ▸ more⟩
    · rw [queued] at running'
      cases running'

theorem reclaimOne_swept (queue : String) (now : Int) (found : List String × Server)
    (other jobId : String) : Swept keys found.2 (reclaimOne keys queue now found other).2 jobId ∧
      (reclaimOne keys queue now found other).2.events = found.2.events := by
  unfold reclaimOne
  cases stored : found.2.hashes (jobKey keys other) with
  | none => exact ⟨.inl ⟨rfl, rfl⟩, rfl⟩
  | some hash =>
    by_cases running : hash.status = .running
    · simp only [running, if_true]
      refine ⟨?_, rfl⟩
      by_cases mine : other = jobId
      · subst mine
        refine .inr ⟨hash.id, hash.result, ?_, ?_, ?_⟩
        · simp [face, stored, running]
        · simp [face_hset_self, JobHash.requeued]
        · exact tokens_zadd_le ⟨_, _, _, _⟩ (((found.2.hset _ _).zrem _ _).incr _).2 other
      · exact .inl ⟨by simp [face_hset_other mine], by simp [tokens_zadd_other, mine]⟩
    · simp only [running, if_false]
      exact ⟨.inl ⟨rfl, rfl⟩, trivial⟩

theorem reclaims_swept {ι : Type} {turn : List String × Server → ι → List String × Server}
    (jobId : String) (once : ∀ found item, Swept keys found.2 (turn found item).2 jobId ∧
      (turn found item).2.events = found.2.events) (items : List ι) (found : List String × Server) :
    Swept keys found.2 (items.foldl turn found).2 jobId ∧
      (items.foldl turn found).2.events = found.2.events := by
  induction items generalizing found with
  | nil => exact ⟨.inl ⟨rfl, rfl⟩, rfl⟩
  | cons item items ih =>
    obtain ⟨swept, events⟩ := once found item
    obtain ⟨rest, same⟩ := ih (turn found item)
    exact ⟨swept.trans rest, same.trans events⟩

theorem reclaimExpired_swept (queue : Option String) (now : Int) (server : Server)
    (jobId : String) : Swept keys server (reclaimExpired keys queue now server).2 jobId ∧
      (reclaimExpired keys queue now server).2.events = server.events :=
  reclaims_swept jobId (fun found queue => reclaims_swept jobId
    (fun found other => reclaimOne_swept queue now found other jobId) _ found) _ ([], server)

end Sweep

section Effect

variable {keys : String} {server after : Server} {op : Op} {jobId : String}

/-- A hash is stored under the id it names, and a queue member names a stored job. -/
def Sane (keys : String) (server : Server) : Prop :=
  ∀ jobId, (face keys server jobId = none → tokens server jobId = 0) ∧
    ∀ id status result, face keys server jobId = some (id, status, result) → id = jobId

/-- Everything a step can do to one job; `admits` and `hands` say whether it admits
the job and whether it hands it out. -/
inductive Effect (keys : String) (op : Op) (server after : Server) (jobId : String)
    (admits hands : Bool) : Prop
  | same (face : face keys after jobId = face keys server jobId)
      (tokens : tokens after jobId = tokens server jobId)
      (silent : posted keys after jobId = posted keys server jobId)
      (flags : admits = false ∧ hands = false)
  | enqueued (queue : String) (payload : Dict) (given : Option String) (priority : Int)
      (uuid : String) (called : op = .enqueue queue payload given priority uuid)
      (own : newId given uuid = jobId)
      (queued : face keys after jobId = some (jobId, .queued, none))
      (tokens : tokens after jobId ≤ tokens server jobId + 1)
      (silent : posted keys after jobId = posted keys server jobId)
      (flags : admits = true ∧ hands = false)
  | claimed (status : Status) (result : Option Dict)
      (found : face keys server jobId = some (jobId, status, result))
      (running : face keys after jobId = some (jobId, .running, result))
      (tokens : tokens server jobId = tokens after jobId + 1)
      (silent : posted keys after jobId = posted keys server jobId)
      (flags : admits = false ∧ hands = true)
  | returned (result : Option Dict)
      (running : face keys server jobId = some (jobId, .running, result))
      (queued : face keys after jobId = some (jobId, .queued, result))
      (tokens : tokens after jobId ≤ tokens server jobId + 1)
      (recovers : op.recovers = true)
      (silent : posted keys after jobId = posted keys server jobId)
      (flags : admits = false ∧ hands = false)
  | requeued (result : Option Dict) (called : op = .requeueForRetry jobId)
      (queued : face keys server jobId = some (jobId, .queued, result))
      (same : face keys after jobId = face keys server jobId)
      (silent : posted keys after jobId = posted keys server jobId)
      (flags : admits = false ∧ hands = false)
  | settled (ending : Ending) (called : op = .terminal ending) (own : ending.jobId = jobId)
      (status : Status) (result : Option Dict)
      (live : face keys server jobId = some (jobId, status, result))
      (unsettled : status.terminal = false)
      (ended : face keys after jobId = some (jobId, ending.status, ending.result))
      (tokens : tokens after jobId = tokens server jobId)
      (once : (posted keys after jobId).length ≤ (posted keys server jobId).length + 1)
      (flags : admits = false ∧ hands = false)

theorem effect_enqueue {nameSpace queue : String} {payload : Dict} {given : Option String}
    {priority now : Int} {uuid : String}
    (called : op = .enqueue queue payload given priority uuid) :
    Effect keys op server
      (luaEnqueue keys nameSpace queue payload (newId given uuid) priority now server) jobId
      (newId given uuid == jobId) false := by
  by_cases mine : newId given uuid = jobId
  · rw [beq_iff_eq.mpr mine]
    refine .enqueued queue payload given priority uuid called mine ?_ ?_ rfl ⟨rfl, rfl⟩
    · simp [luaEnqueue, ← mine, face_hset_self]
    · exact tokens_zadd_le ⟨_, _, _, _⟩ ((server.incr _).2.hset _ _) jobId
  · rw [beq_eq_false_iff_ne.mpr mine]
    refine .same ?_ ?_ rfl ⟨rfl, rfl⟩
    · simp [luaEnqueue, face_hset_other mine]
    · simp [luaEnqueue, tokens_zadd_other, mine]

theorem effect_claim {tostring : Int → Int} {queue worker : String} {leaseS now : Int}
    (sane : Sane keys server) :
    Effect keys op server (luaClaim keys tostring queue worker leaseS now server).2 jobId false
      ((luaClaim keys tostring queue worker leaseS now server).1.any fun hash =>
        hash.id == jobId) := by
  unfold luaClaim
  cases popped : popMin (queueKey keys queue) server.members with
  | none => exact .same rfl rfl rfl ⟨rfl, rfl⟩
  | some found =>
    obtain ⟨member, members⟩ := found
    have count : ∀ id, tokens server id =
        tokens { server with members } id + if member.jobId == id then 1 else 0 := by
      intro id
      unfold tokens
      rw [(popMin_perm popped).countP_eq, List.countP_cons]
    have stored : ∃ hash, server.hashes (jobKey keys member.jobId) = some hash := by
      have held := count member.jobId
      cases found : server.hashes (jobKey keys member.jobId) with
      | some hash => exact ⟨hash, rfl⟩
      | none =>
        have free := (sane member.jobId).1 (by simp [face, found])
        simp only [BEq.rfl, if_true] at held
        omega
    obtain ⟨hash, found⟩ := stored
    have named : hash.id = member.jobId :=
      (sane member.jobId).2 _ hash.status hash.result (by simp [face, found])
    simp only [found, Option.getD_some, Option.any_some, named]
    by_cases mine : member.jobId = jobId
    · subst mine
      simp only [BEq.rfl]
      refine .claimed hash.status hash.result ?_ ?_ ?_ rfl ⟨rfl, rfl⟩
      · simp [face, found, named]
      · simp [face_hset_self]
      · rw [count]
        simp
    · rw [beq_eq_false_iff_ne.mpr mine]
      refine .same ?_ ?_ rfl ⟨rfl, rfl⟩
      · simp only [face_incr, face_decr, face_lease, face_hset_other mine]
        rfl
      · rw [count]
        simp [mine]

theorem effect_renew {tostring : Int → Int} {other worker : String} {leaseS now : Int} :
    Effect keys op server (luaRenew keys tostring other worker leaseS now server).2 jobId
      false false := by
  unfold luaRenew
  split
  · exact .same rfl rfl rfl ⟨rfl, rfl⟩
  · rename_i hash found
    split
    · refine .same ?_ rfl rfl ⟨rfl, rfl⟩
      by_cases mine : other = jobId
      · subst mine
        simp [face_hset_self]
        simp [face, found]
      · simp [face_hset_other mine]
    · exact .same rfl rfl rfl ⟨rfl, rfl⟩

theorem effect_requeue {other : String} {now : Int} (sane : Sane keys server) :
    Effect keys (.requeueForRetry other) server (luaRequeue keys other now server).2 jobId
      false false := by
  unfold luaRequeue
  split
  · exact .same rfl rfl rfl ⟨rfl, rfl⟩
  · rename_i hash found
    split
    · exact .same rfl rfl rfl ⟨rfl, rfl⟩
    · rename_i live
      by_cases mine : other = jobId
      · subst mine
        have seen : face keys server other = some (hash.id, hash.status, hash.result) := by
          simp [face, found]
        have named := (sane other).2 _ _ _ seen
        rw [named] at seen
        cases status : hash.status with
        | queued =>
          rw [status] at seen
          refine .requeued hash.result rfl seen ?_ rfl ⟨rfl, rfl⟩
          simp [face_hset_self, JobHash.requeued, seen, named]
        | running =>
          rw [status] at seen
          refine .returned hash.result seen ?_ ?_ rfl rfl ⟨rfl, rfl⟩
          · simp [face_hset_self, JobHash.requeued, named]
          · exact tokens_zadd_le ⟨_, _, _, _⟩ (((server.hset _ _).zrem _ _).incr _).2 other
        | completed => simp [status, Status.terminal] at live
        | failed => simp [status, Status.terminal] at live
      · exact .same (by simp [face_hset_other mine]) (by simp [tokens_zadd_other, mine]) rfl
          ⟨rfl, rfl⟩

theorem face_appendEvent (nameSpace : String) (ending : Ending) (queue : String) (now : Int) :
    face keys (appendEvent keys nameSpace ending queue now server) jobId =
      face keys server jobId := by
  unfold appendEvent
  split
  · rfl
  · split <;> rfl

theorem tokens_appendEvent (nameSpace : String) (ending : Ending) (queue : String) (now : Int) :
    tokens (appendEvent keys nameSpace ending queue now server) jobId = tokens server jobId := by
  unfold appendEvent
  split
  · rfl
  · split <;> rfl

/-- At most one event is appended, and it is the ended job's. -/
theorem posted_appendEvent (nameSpace : String) (ending : Ending) (queue : String) (now : Int) :
    posted keys (appendEvent keys nameSpace ending queue now server) jobId =
        posted keys server jobId ∨
      ending.jobId = jobId ∧
        (posted keys (appendEvent keys nameSpace ending queue now server) jobId).length =
          (posted keys server jobId).length + 1 := by
  unfold appendEvent
  split
  · exact .inl rfl
  · split
    · exact .inl rfl
    · by_cases mine : ending.jobId = jobId <;>
        simp [posted, Server.rpush, Server.incr, List.filter_append, mine]

theorem effect_terminal {nameSpace : String} {ending : Ending} {now : Int}
    (sane : Sane keys server) :
    Effect keys (.terminal ending) server (luaTerminal keys nameSpace ending now server).2 jobId
      false false := by
  unfold luaTerminal
  split
  · exact .same rfl rfl rfl ⟨rfl, rfl⟩
  · rename_i hash found
    split
    · exact .same rfl rfl rfl ⟨rfl, rfl⟩
    · rename_i live
      by_cases mine : ending.jobId = jobId
      · have seen : face keys server ending.jobId = some (hash.id, hash.status, hash.result) := by
          simp [face, found]
        have named := (sane ending.jobId).2 _ _ _ seen
        rw [named, mine] at seen
        refine .settled ending rfl mine hash.status hash.result seen (by simpa using live) ?_ ?_ ?_
          ⟨rfl, rfl⟩
        · simp [face_appendEvent, ← mine, face_hset_self, named]
        · simp [tokens_appendEvent]
        · rcases posted_appendEvent nameSpace ending hash.queue now with same | ⟨-, more⟩
          · exact (congrArg List.length same).le.trans (Nat.le_succ _)
          · exact more.le
      · refine .same ?_ ?_ ?_ ⟨rfl, rfl⟩
        · simp [face_appendEvent, face_hset_other mine]
        · simp [tokens_appendEvent]
        · rcases posted_appendEvent nameSpace ending hash.queue now with same | ⟨own, -⟩
          · exact same
          · exact absurd own mine

end Effect

section Steps

variable (tostring : Int → Int) (nameSpace : String)

theorem effect {server : Server} (sane : Sane (keysOf nameSpace) server) (step : Step)
    (jobId : String) :
    Effect (keysOf nameSpace) step.op server ((port tostring nameSpace).after server step) jobId
      ((port tostring nameSpace).admits server step jobId)
      ((port tostring nameSpace).hands server step jobId) := by
  obtain ⟨op, now⟩ := step
  cases op with
  | enqueue queue payload given priority uuid => exact effect_enqueue rfl
  | claim queue worker leaseS =>
    have handed : (port tostring nameSpace).hands server ⟨.claim queue worker leaseS, now⟩ jobId =
        ((luaClaim (keysOf nameSpace) tostring queue worker leaseS now server).1.any fun hash =>
          hash.id == jobId) := by
      simp only [Port.hands, Port.reply, port, call, Prod.map]
      cases (luaClaim (keysOf nameSpace) tostring queue worker leaseS now server).1 <;> rfl
    rw [handed]
    exact effect_claim sane
  | renewLease other worker leaseS => exact effect_renew
  | reclaimExpired queue =>
    obtain ⟨swept, events⟩ := reclaimExpired_swept queue now server jobId
    have silent := congrArg (fun events : String → List Event =>
      (events (keysOf nameSpace ++ "events")).filter fun event => event.jobId = jobId) events
    rcases swept with ⟨face, tokens⟩ | ⟨id, result, running, queued, more⟩
    · exact .same face tokens silent ⟨rfl, rfl⟩
    · have named := (sane jobId).2 _ _ _ running
      subst named
      exact .returned result running queued more rfl silent ⟨rfl, rfl⟩
  | requeueForRetry other => exact effect_requeue sane
  | terminal ending => exact effect_terminal sane

theorem sane_after {server : Server} (sane : Sane (keysOf nameSpace) server) (step : Step) :
    Sane (keysOf nameSpace) ((port tostring nameSpace).after server step) := by
  intro jobId
  obtain ⟨free, named⟩ := sane jobId
  cases effect tostring nameSpace sane step jobId with
  | same face tokens =>
    rw [face, tokens]
    exact ⟨free, named⟩
  | enqueued _ _ _ _ _ _ _ queued => simp [queued]
  | claimed _ _ _ running => simp [running]
  | returned _ _ queued => simp [queued]
  | requeued _ _ queued same => simp [same, queued]
  | settled _ _ _ _ _ _ _ ended => simp [ended]

end Steps

end QueueWorkflows.Backend.Redis
