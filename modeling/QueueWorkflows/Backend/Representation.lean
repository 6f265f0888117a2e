import Mathlib.Data.Set.Card
import QueueWorkflows.Base.Ranked
import QueueWorkflows.Backend.Contract
import QueueWorkflows.Backend.Tenants

/-! What the Redis adapter keeps about a job is spread over a hash, two sorted sets and
four counters. The parts agree as long as no script meets a job in a state it does not
expect, and no lease is rounded on its way into the hash. -/

namespace QueueWorkflows.Backend

open Transaction (Reach follow)

namespace Redis

/-- The queue sets a job is a member of, each with the score it has there. -/
def seats (server : Server) (jobId : String) : List (String × Int) :=
  (server.members.filter (·.jobId == jobId)).map fun member => (member.key, member.score)

/-- The running sets a job is a member of, each with the score it has there. -/
def leasesOf (server : Server) (jobId : String) : List (String × Int) :=
  (server.leases.filter (·.jobId == jobId)).map fun lease => (lease.key, lease.score)

section Places

variable (tostring : Int → Int) (keys : String)

/-- Where a job belongs, by what its hash says; the lease in the hash is the score as
Lua prints it. -/
inductive Placed (hash : JobHash) : List (String × Int) → List (String × Int) → Prop
  | queued (status : hash.status = .queued) :
      Placed hash [(queueKey keys hash.queue, -hash.priority)] []
  | running {lapse : Int} (status : hash.status = .running)
      (lease : hash.leaseExpiresAt = some (tostring lapse)) :
      Placed hash [] [(runningKey keys hash.queue, lapse)]
  | ended (status : hash.status.terminal = true) : Placed hash [] []

/-- A job is where it belongs; an id without a hash is nowhere. -/
def InPlace (server : Server) (jobId : String) : Prop :=
  match server.hashes (jobKey keys jobId) with
  | none => seats server jobId = [] ∧ leasesOf server jobId = []
  | some hash => Placed tostring keys hash (seats server jobId) (leasesOf server jobId)

/-- The jobs of a queue in a status. -/
def census (server : Server) (queue : String) (status : Status) : Set String :=
  { jobId | ∃ hash, server.hashes (jobKey keys jobId) = some hash ∧ hash.queue = queue ∧
    hash.status = status }

/-- A counter counts the jobs it is named after. -/
def Counts (server : Server) : Prop :=
  ∀ queue status, (census keys server queue status).Finite ∧
    server.counters (countKey keys queue status) = (census keys server queue status).ncard

structure Represents (server : Server) : Prop where
  places : ∀ jobId, InPlace tostring keys server jobId
  counts : Counts keys server

end Places

section Sets

variable {server : Server} {jobId other key : String}

/-! Only `ZADD` and `ZPOPMIN` on a queue move seats, and only the commands on a running
set move leases. -/

@[simp] theorem seats_incr (key : String) : seats (server.incr key).2 jobId = seats server jobId :=
  rfl

@[simp] theorem seats_decr (key : String) : seats (server.decr key) jobId = seats server jobId :=
  rfl

@[simp] theorem seats_hset (key : String) (hash : JobHash) :
    seats (server.hset key hash) jobId = seats server jobId := rfl

@[simp] theorem seats_zrem (key : String) :
    seats (server.zrem key other) jobId = seats server jobId := rfl

@[simp] theorem seats_lease (lease : Lease) :
    seats (server.lease lease) jobId = seats server jobId := rfl

@[simp] theorem seats_sadd (key name : String) :
    seats (server.sadd key name) jobId = seats server jobId := rfl

@[simp] theorem leasesOf_incr (key : String) :
    leasesOf (server.incr key).2 jobId = leasesOf server jobId := rfl

@[simp] theorem leasesOf_decr (key : String) :
    leasesOf (server.decr key) jobId = leasesOf server jobId := rfl

@[simp] theorem leasesOf_hset (key : String) (hash : JobHash) :
    leasesOf (server.hset key hash) jobId = leasesOf server jobId := rfl

@[simp] theorem leasesOf_zadd (member : Member) :
    leasesOf (server.zadd member) jobId = leasesOf server jobId := rfl

@[simp] theorem leasesOf_sadd (key name : String) :
    leasesOf (server.sadd key name) jobId = leasesOf server jobId := rfl

theorem seats_zadd_self {member : Member} (free : seats server member.jobId = []) :
    seats (server.zadd member) member.jobId = [(member.key, member.score)] := by
  have none : server.members.filter (·.jobId == member.jobId) = [] := List.map_eq_nil_iff.mp free
  unfold seats Server.zadd
  rw [Ranked.filter_insert_alone (by simp), List.map_singleton]
  rw [List.filter_filter, List.filter_eq_nil_iff] at *
  intro member present
  simp [none member present]

theorem seats_zadd_other {member : Member} (apart : member.jobId ≠ jobId) :
    seats (server.zadd member) jobId = seats server jobId := by
  unfold seats Server.zadd
  rw [Ranked.filter_insert_outside (by simpa using apart), Ranked.filter_kept]
  intro other mine
  simp [eq_of_beq mine, Ne.symm apart]

theorem leasesOf_lease_self {lease : Lease}
    (only : ∀ held ∈ leasesOf server lease.jobId, held.1 = lease.key) :
    leasesOf (server.lease lease) lease.jobId = [(lease.key, lease.score)] := by
  unfold leasesOf Server.lease
  rw [Ranked.filter_insert_alone (by simp), List.map_singleton]
  rw [List.filter_filter, List.filter_eq_nil_iff]
  intro other present
  by_cases mine : other.jobId = lease.jobId
  · have key := only _ (List.mem_map_of_mem (List.mem_filter.mpr ⟨present, by simpa using mine⟩))
    simpa [mine] using key
  · simp [mine]

theorem leasesOf_lease_other {lease : Lease} (apart : lease.jobId ≠ jobId) :
    leasesOf (server.lease lease) jobId = leasesOf server jobId := by
  unfold leasesOf Server.lease
  rw [Ranked.filter_insert_outside (by simpa using apart), Ranked.filter_kept]
  intro other mine
  simp [eq_of_beq mine, Ne.symm apart]

theorem leasesOf_zrem_self (only : ∀ held ∈ leasesOf server jobId, held.1 = key) :
    leasesOf (server.zrem key jobId) jobId = [] := by
  unfold leasesOf Server.zrem
  rw [List.map_eq_nil_iff, List.filter_filter, List.filter_eq_nil_iff]
  intro other present
  by_cases mine : other.jobId = jobId
  · have key := only _ (List.mem_map_of_mem (List.mem_filter.mpr ⟨present, by simpa using mine⟩))
    simpa [mine] using key
  · simp [mine]

theorem leasesOf_zrem_other (apart : other ≠ jobId) :
    leasesOf (server.zrem key other) jobId = leasesOf server jobId := by
  unfold leasesOf Server.zrem
  rw [Ranked.filter_kept]
  intro lease mine
  simp [eq_of_beq mine, Ne.symm apart]

/-- `ZPOPMIN` takes the first member of the set out of the list. -/
theorem popMin_cases {members left : List Member} {popped : Member}
    (found : popMin key members = some (popped, left)) :
    ∃ front back, members = front ++ popped :: back ∧ left = front ++ back ∧
      popped.key = key ∧ ∀ member ∈ front, member.key ≠ key := by
  induction members generalizing left with
  | nil => cases found
  | cons member rest ih =>
    unfold popMin at found
    split at found
    · rename_i mine
      cases found
      exact ⟨[], rest, rfl, rfl, mine, by simp⟩
    · rename_i others
      obtain ⟨⟨first, remaining⟩, deeper, same⟩ := Option.map_eq_some_iff.mp found
      cases same
      obtain ⟨front, back, rfl, rfl, own, skipped⟩ := ih deeper
      exact ⟨member :: front, back, rfl, rfl, own, by simpa using ⟨others, skipped⟩⟩

end Sets

section Counters

variable {keys : String} {server after : Server} {queue other jobId : String}
  {status last : Status}

/-- Where the texts behind the last colon have no colon, equal keys are equal in both parts. -/
theorem append_colon_inj {front second back last : List Char} (plain : ':' ∉ back)
    (plain' : ':' ∉ last) (same : front ++ ':' :: back = second ++ ':' :: last) :
    front = second ∧ back = last := by
  rcases List.append_eq_append_iff.mp same with ⟨tail, rfl, rest⟩ | ⟨tail, rfl, rest⟩
  · cases tail with
    | nil => simpa using rest
    | cons char tail =>
      rw [List.cons_append, List.cons.injEq] at rest
      simp [rest.2] at plain
  · cases tail with
    | nil => simpa using rest.symm
    | cons char tail =>
      rw [List.cons_append, List.cons.injEq] at rest
      simp [rest.2] at plain'

theorem Status.colon_notMem_text (status : Status) : ':' ∉ status.text.toList := by
  cases status <;> decide

theorem Status.text_inj (same : status.text = last.text) : status = last := by
  revert same
  cases status <;> cases last <;> decide

theorem countKey_inj :
    countKey keys queue status = countKey keys other last ↔ queue = other ∧ status = last := by
  constructor
  · intro same
    have texts := congrArg String.toList same
    simp only [countKey, String.toList_append, List.append_assoc, List.append_cancel_left_eq] at texts
    obtain ⟨queues, ends⟩ := append_colon_inj (Status.colon_notMem_text status)
      (Status.colon_notMem_text last) texts
    exact ⟨String.toList_inj.mp queues, Status.text_inj (String.toList_inj.mp ends)⟩
  · rintro ⟨rfl, rfl⟩
    rfl

/-- What a hash adds to a counter. -/
def mark (hash : Option JobHash) (queue : String) (status : Status) : Int :=
  if hash.any fun hash => hash.queue = queue ∧ hash.status = status then 1 else 0

theorem mem_census : jobId ∈ census keys server queue status ↔
    mark (server.hashes (jobKey keys jobId)) queue status = 1 := by
  cases found : server.hashes (jobKey keys jobId) <;> simp [census, mark, found]

/-- The counters follow the one hash that is written. -/
theorem Counts.write {hash : JobHash} (counts : Counts keys server)
    (written : after.hashes = Function.update server.hashes (jobKey keys jobId) (some hash))
    (counters : ∀ queue status, after.counters (countKey keys queue status) =
      server.counters (countKey keys queue status) -
        mark (server.hashes (jobKey keys jobId)) queue status + mark (some hash) queue status) :
    Counts keys after := by
  intro queue status
  obtain ⟨finite, counted⟩ := counts queue status
  have own : jobId ∈ census keys after queue status ↔ mark (some hash) queue status = 1 := by
    rw [mem_census, written, Function.update_self]
  have others : ∀ id, id ≠ jobId →
      (id ∈ census keys after queue status ↔ id ∈ census keys server queue status) := by
    intro id apart
    rw [mem_census, mem_census, written,
      Function.update_of_ne fun same => apart (jobKey_inj.mp same)]
  rw [counters, counted]
  have zero : ∀ held, mark held queue status ≠ 1 → mark held queue status = 0 := by
    intro held absent
    simp_all [mark]
  by_cases was : jobId ∈ census keys server queue status <;>
    by_cases is : jobId ∈ census keys after queue status
  · have same : census keys after queue status = census keys server queue status := by
      ext id
      by_cases mine : id = jobId
      · simp [mine, was, is]
      · exact others id mine
    rw [same, mem_census.mp was, own.mp is]
    exact ⟨finite, by omega⟩
  · have same : census keys after queue status = census keys server queue status \ {jobId} := by
      ext id
      by_cases mine : id = jobId
      · simp [mine, is]
      · simpa [mine] using others id mine
    rw [same, mem_census.mp was, zero _ (own.not.mp is)]
    have less := Set.ncard_sdiff_singleton_add_one was finite
    exact ⟨finite.sdiff, by omega⟩
  · have same : census keys after queue status = insert jobId (census keys server queue status) := by
      ext id
      by_cases mine : id = jobId
      · simp [mine, is]
      · simpa [mine] using others id mine
    rw [same, own.mp is, zero _ (mem_census.not.mp was), Set.ncard_insert_of_notMem was finite]
    exact ⟨finite.insert _, by omega⟩
  · have same : census keys after queue status = census keys server queue status := by
      ext id
      by_cases mine : id = jobId
      · simp [mine, was, is]
      · exact others id mine
    rw [same, zero _ (mem_census.not.mp was), zero _ (own.not.mp is)]
    exact ⟨finite, by omega⟩

@[simp] theorem mark_none : mark none queue status = 0 := rfl

@[simp] theorem mark_some {hash : JobHash} : mark (some hash) queue status =
    if hash.queue = queue ∧ hash.status = status then 1 else 0 := by
  simp [mark]

@[simp] theorem counters_incr_count : (server.incr (countKey keys queue status)).2.counters
    (countKey keys other last) = server.counters (countKey keys other last) +
      if queue = other ∧ status = last then 1 else 0 := by
  by_cases same : queue = other ∧ status = last
  · obtain ⟨rfl, rfl⟩ := same
    simp [Server.incr]
  · have apart : countKey keys other last ≠ countKey keys queue status := fun equal =>
      same (countKey_inj.mp equal.symm)
    simp [Server.incr, Function.update_of_ne apart, same]

@[simp] theorem counters_decr_count : (server.decr (countKey keys queue status)).counters
    (countKey keys other last) = server.counters (countKey keys other last) -
      if queue = other ∧ status = last then 1 else 0 := by
  by_cases same : queue = other ∧ status = last
  · obtain ⟨rfl, rfl⟩ := same
    simp [Server.decr]
  · have apart : countKey keys other last ≠ countKey keys queue status := fun equal =>
      same (countKey_inj.mp equal.symm)
    simp [Server.decr, Function.update_of_ne apart, same]

/-- The counters of sequence numbers count no jobs. -/
theorem countKey_ne {name : String} (plain : name.toList.head? ≠ some 'c') :
    countKey keys other last ≠ keys ++ name := by
  intro same
  have texts := congrArg String.toList same
  simp only [countKey, String.toList_append, List.append_assoc,
    List.append_cancel_left_eq] at texts
  rw [← texts] at plain
  exact plain rfl

theorem counters_incr_plain {name : String} (plain : name.toList.head? ≠ some 'c') :
    (server.incr (keys ++ name)).2.counters (countKey keys other last) =
      server.counters (countKey keys other last) := by
  simp [Server.incr, Function.update_of_ne (countKey_ne plain)]

@[simp] theorem counters_incr_seq : (server.incr (keys ++ "seq")).2.counters
    (countKey keys other last) = server.counters (countKey keys other last) :=
  counters_incr_plain (by decide)

@[simp] theorem counters_hset (key : String) (hash : JobHash) :
    (server.hset key hash).counters = server.counters := rfl

@[simp] theorem counters_zadd (member : Member) :
    (server.zadd member).counters = server.counters := rfl

@[simp] theorem counters_lease (lease : Lease) :
    (server.lease lease).counters = server.counters := rfl

@[simp] theorem counters_zrem (key : String) :
    (server.zrem key jobId).counters = server.counters := rfl

@[simp] theorem counters_sadd (key name : String) :
    (server.sadd key name).counters = server.counters := rfl

end Counters

section Scripts

variable {tostring : Int → Int} {keys : String} {server after : Server} {jobId : String}
  {hash : JobHash}

/-- A script writes one hash: the others stay in place, the counters follow, and the
job of the hash is where it belongs. -/
theorem Represents.write (represents : Represents tostring keys server) (jobId : String)
    (written : after.hashes = Function.update server.hashes (jobKey keys jobId) (some hash))
    (others : ∀ id, jobId ≠ id →
      seats after id = seats server id ∧ leasesOf after id = leasesOf server id)
    (own : Placed tostring keys hash (seats after jobId) (leasesOf after jobId))
    (counters : ∀ queue status, after.counters (countKey keys queue status) =
      server.counters (countKey keys queue status) -
        mark (server.hashes (jobKey keys jobId)) queue status + mark (some hash) queue status) :
    Represents tostring keys after where
  places id := by
    unfold InPlace
    by_cases mine : jobId = id
    · subst mine
      rw [written, Function.update_self]
      exact own
    · rw [written, Function.update_of_ne fun same => mine (jobKey_inj.mp same).symm,
        (others id mine).1, (others id mine).2]
      exact represents.places id
  counts := represents.counts.write written counters

theorem Placed.of_running {own leased : List (String × Int)} (placed : Placed tostring keys hash own leased)
    (running : hash.status = .running) :
    own = [] ∧ ∃ lapse, hash.leaseExpiresAt = some (tostring lapse) ∧
      leased = [(runningKey keys hash.queue, lapse)] := by
  cases placed with
  | queued status =>
    rw [running] at status
    cases status
  | running status lease => exact ⟨rfl, _, lease, rfl⟩
  | ended status =>
    rw [running] at status
    cases status

/-- A running job has no seat, and no lease in another queue than its own. -/
theorem Represents.held (represents : Represents tostring keys server)
    (stored : server.hashes (jobKey keys jobId) = some hash) (running : hash.status = .running) :
    seats server jobId = [] ∧
      ∀ held ∈ leasesOf server jobId, held.1 = runningKey keys hash.queue := by
  have place := represents.places jobId
  simp only [InPlace, stored] at place
  obtain ⟨free, lapse, -, leased⟩ := place.of_running running
  refine ⟨free, fun held mine => ?_⟩
  rw [leased, List.mem_singleton] at mine
  rw [mine]

theorem represents_enqueue {nameSpace queue : String} {payload : Dict} {priority now : Int}
    (represents : Represents tostring keys server) (fresh : server.hashes (jobKey keys jobId) = none) :
    Represents tostring keys (luaEnqueue keys nameSpace queue payload jobId priority now server) := by
  have place := represents.places jobId
  simp only [InPlace, fresh] at place
  refine represents.write jobId rfl (fun id apart => ?_) ?_ fun other status => ?_
  · simp [luaEnqueue, seats_zadd_other, apart]
  · simp only [luaEnqueue, seats_incr, seats_sadd, leasesOf_incr, leasesOf_sadd, leasesOf_zadd,
      leasesOf_hset, place.2]
    rw [seats_zadd_self (by simpa using place.1)]
    exact .queued rfl
  · simp [luaEnqueue, fresh]

/-- A job with a seat is queued, and the seat is the one it should have. -/
theorem Represents.seated (represents : Represents tostring keys server) {member : Member}
    (present : member ∈ server.members) :
    ∃ hash, server.hashes (jobKey keys member.jobId) = some hash ∧ hash.status = .queued ∧
      member.key = queueKey keys hash.queue ∧ member.score = -hash.priority ∧
      leasesOf server member.jobId = [] ∧
      server.members.filter (·.jobId == member.jobId) = [member] := by
  have listed : member ∈ server.members.filter (·.jobId == member.jobId) :=
    List.mem_filter.mpr ⟨present, by simp⟩
  have seat : (member.key, member.score) ∈ seats server member.jobId :=
    List.mem_map_of_mem listed
  have place := represents.places member.jobId
  unfold InPlace at place
  cases found : server.hashes (jobKey keys member.jobId) with
  | none =>
    simp only [found] at place
    rw [place.1] at seat
    cases seat
  | some hash =>
    simp only [found] at place
    generalize held : seats server member.jobId = own at place seat
    generalize left : leasesOf server member.jobId = leased at place
    cases place with
    | queued status =>
      rw [List.mem_singleton, Prod.mk.injEq] at seat
      refine ⟨hash, rfl, status, seat.1, seat.2, rfl, ?_⟩
      obtain ⟨only, alone, -⟩ := List.map_eq_singleton_iff.mp held
      rw [alone] at listed ⊢
      rw [List.mem_singleton.mp listed]
    | running => cases seat
    | ended => cases seat

theorem Represents.leased (represents : Represents tostring keys server) {lease : Lease}
    (present : lease ∈ server.leases) :
    ∃ hash, server.hashes (jobKey keys lease.jobId) = some hash ∧ hash.status = .running ∧
      lease.key = runningKey keys hash.queue ∧ hash.leaseExpiresAt = some (tostring lease.score) := by
  have held : (lease.key, lease.score) ∈ leasesOf server lease.jobId :=
    List.mem_map_of_mem (List.mem_filter.mpr ⟨present, by simp⟩)
  have place := represents.places lease.jobId
  unfold InPlace at place
  cases found : server.hashes (jobKey keys lease.jobId) with
  | none =>
    simp only [found] at place
    rw [place.2] at held
    cases held
  | some hash =>
    simp only [found] at place
    generalize seats server lease.jobId = own at place
    generalize leasesOf server lease.jobId = leased at place held
    cases place with
    | running status ends =>
      rw [List.mem_singleton, Prod.mk.injEq] at held
      exact ⟨hash, rfl, status, held.1, held.2 ▸ ends⟩
    | queued => cases held
    | ended => cases held

theorem represents_claim {queue worker : String} {leaseS now : Int}
    (represents : Represents tostring keys server) :
    Represents tostring keys (luaClaim keys tostring queue worker leaseS now server).2 := by
  unfold luaClaim
  cases popped : popMin (queueKey keys queue) server.members with
  | none => exact represents
  | some found =>
    obtain ⟨member, members⟩ := found
    obtain ⟨front, back, split, left, key, -⟩ := popMin_cases popped
    have present : member ∈ server.members := by simp [split]
    obtain ⟨hash, stored, queued, own, -, free, alone⟩ := represents.seated present
    have mine : hash.queue = queue := by
      rw [key] at own
      simpa [queueKey] using own.symm
    subst mine
    simp only [stored, Option.getD_some]
    have unseated : seats { server with members } member.jobId = [] := by
      rw [split, List.filter_append, List.filter_cons_of_pos (by simp)] at alone
      have single := congrArg List.length alone
      simp only [List.length_append, List.length_cons, List.length_nil] at single
      unfold seats
      rw [left, List.map_eq_nil_iff, List.filter_append, List.append_eq_nil_iff,
        ← List.length_eq_zero_iff, ← List.length_eq_zero_iff]
      omega
    have others : ∀ id, member.jobId ≠ id → seats { server with members } id = seats server id := by
      intro id apart
      simp [seats, left, split, apart]
    refine represents.write member.jobId rfl (fun id apart => ⟨?_, ?_⟩) ?_ fun other status => ?_
    · simpa using others id apart
    · rw [leasesOf_incr, leasesOf_decr, leasesOf_lease_other apart]
      rfl
    · simp only [seats_incr, seats_decr, seats_lease, seats_hset, leasesOf_incr, leasesOf_decr,
        unseated]
      rw [leasesOf_lease_self]
      · exact .running rfl rfl
      · intro held mine
        rw [leasesOf_hset, show leasesOf { server with members } member.jobId = [] from free] at mine
        cases mine
    · simp [stored, queued]
      
theorem represents_renew {worker : String} {leaseS now : Int}
    (represents : Represents tostring keys server) :
    Represents tostring keys (luaRenew keys tostring jobId worker leaseS now server).2 := by
  unfold luaRenew
  cases stored : server.hashes (jobKey keys jobId) with
  | none => exact represents
  | some hash =>
    by_cases holds : hash.status = .running ∧ hash.claimedBy = worker
    · obtain ⟨free, only⟩ := represents.held stored holds.1
      simp only [holds, and_self, if_true]
      refine represents.write jobId rfl (fun id apart => ⟨rfl, ?_⟩) ?_ fun other status => ?_
      · rw [leasesOf_lease_other apart]
        rfl
      · rw [seats_lease, seats_hset, free, leasesOf_lease_self (by simpa using only)]
        exact .running rfl rfl
      · simp [stored, holds.1]
    · simpa [holds] using represents

/-- Back to the queue: the common part of `_LUA_REQUEUE` and `_LUA_RECLAIM`. -/
theorem represents_release (now seq : Int) (represents : Represents tostring keys server)
    (stored : server.hashes (jobKey keys jobId) = some hash) (running : hash.status = .running)
    (hashes : after.hashes = (server.hset (jobKey keys jobId) (hash.requeued now)).hashes)
    (members : after.members =
      (server.zadd ⟨queueKey keys hash.queue, -hash.priority, seq, jobId⟩).members)
    (leases : after.leases = (server.zrem (runningKey keys hash.queue) jobId).leases)
    (counters : ∀ queue status, after.counters (countKey keys queue status) =
      server.counters (countKey keys queue status) - mark (some hash) queue status +
        mark (some (hash.requeued now)) queue status) :
    Represents tostring keys after := by
  obtain ⟨free, only⟩ := represents.held stored running
  have seated : ∀ id, seats after id =
      seats (server.zadd ⟨queueKey keys hash.queue, -hash.priority, seq, jobId⟩) id := by
    intro id
    rw [seats, members, seats]
  have leased : ∀ id, leasesOf after id =
      leasesOf (server.zrem (runningKey keys hash.queue) jobId) id := by
    intro id
    rw [leasesOf, leases, leasesOf]
  refine represents.write jobId hashes (fun id apart => ⟨?_, ?_⟩) ?_ fun queue status => ?_
  · rw [seated, seats_zadd_other apart]
  · rw [leased, leasesOf_zrem_other apart]
  · rw [seated, leased, seats_zadd_self free, leasesOf_zrem_self only]
    exact .queued rfl
  · rw [counters, stored]

theorem represents_requeue {now : Int} (represents : Represents tostring keys server)
    (waiting : ∀ hash, server.hashes (jobKey keys jobId) = some hash → hash.status ≠ .queued) :
    Represents tostring keys (luaRequeue keys jobId now server).2 := by
  unfold luaRequeue
  cases stored : server.hashes (jobKey keys jobId) with
  | none => exact represents
  | some hash =>
    have left := waiting hash stored
    cases status : hash.status with
    | queued => exact absurd status left
    | completed => simpa [status, Status.terminal] using represents
    | failed => simpa [status, Status.terminal] using represents
    | running =>
      simp only [status, Status.terminal, Bool.false_eq_true, if_false]
      refine represents_release now _ represents stored status rfl rfl rfl fun queue last => ?_
      simp [status, JobHash.requeued]

theorem represents_reclaimOne (now : Int) {queue : String} {found : List String × Server}
    (represents : Represents tostring keys found.2)
    (mine : ∀ hash, found.2.hashes (jobKey keys jobId) = some hash → hash.queue = queue) :
    Represents tostring keys (reclaimOne keys queue now found jobId).2 ∧
      ∀ id hash, (reclaimOne keys queue now found jobId).2.hashes (jobKey keys id) = some hash →
        ∃ before, found.2.hashes (jobKey keys id) = some before ∧ before.queue = hash.queue := by
  unfold reclaimOne
  cases stored : found.2.hashes (jobKey keys jobId) with
  | none => exact ⟨represents, fun _ hash kept => ⟨hash, kept, rfl⟩⟩
  | some hash =>
    by_cases running : hash.status = .running
    · obtain rfl := mine hash stored
      simp only [running, if_true]
      refine ⟨represents_release now _ represents stored running rfl rfl rfl fun queue status => ?_,
        fun id kept now => ?_⟩
      · simp [running, JobHash.requeued]
      · by_cases own : id = jobId
        · subst own
          obtain rfl : hash.requeued _ = kept := by simpa [Server.hset, Server.zadd, Server.incr,
            Server.decr, Server.zrem] using now
          exact ⟨hash, stored, rfl⟩
        · refine ⟨kept, ?_, rfl⟩
          simpa [Server.hset, Server.zadd, Server.incr, Server.decr, Server.zrem,
            Function.update_of_ne fun same => own (jobKey_inj.mp same)] using now
    · simp only [running, if_false]
      exact ⟨represents, fun _ hash kept => ⟨hash, kept, rfl⟩⟩

theorem represents_luaReclaim {queue : String} {now : Int} {found : List String × Server}
    (represents : Represents tostring keys found.2) :
    Represents tostring keys (luaReclaim keys now found queue).2 := by
  have sweep : ∀ (jobIds : List String) (found : List String × Server), Represents tostring keys found.2 →
      (∀ jobId ∈ jobIds, ∀ hash, found.2.hashes (jobKey keys jobId) = some hash →
        hash.queue = queue) →
      Represents tostring keys (jobIds.foldl (reclaimOne keys queue now) found).2 := by
    intro jobIds
    induction jobIds with
    | nil => exact fun _ represents _ => represents
    | cons jobId jobIds ih =>
      intro found represents mine
      obtain ⟨kept, same⟩ := represents_reclaimOne now represents (mine jobId List.mem_cons_self)
      refine ih _ kept fun other listed hash stored => ?_
      obtain ⟨before, was, queue⟩ := same other hash stored
      rw [← queue]
      exact mine other (List.mem_cons_of_mem _ listed) before was
  refine sweep _ found represents fun jobId listed hash stored => ?_
  obtain ⟨lease, expired, rfl⟩ := List.mem_map.mp listed
  obtain ⟨present, lapsed⟩ := List.mem_filter.mp expired
  simp only [Bool.and_eq_true, beq_iff_eq] at lapsed
  obtain ⟨own, found, -, key, -⟩ := represents.leased present
  obtain rfl := Option.some.inj (stored.symm.trans found)
  rw [lapsed.1] at key
  simpa [runningKey] using key.symm

theorem represents_reclaim {queue : Option String} {now : Int} (represents : Represents tostring keys server) :
    Represents tostring keys (reclaimExpired keys queue now server).2 := by
  have sweeps : ∀ (queues : List String) (found : List String × Server), Represents tostring keys found.2 →
      Represents tostring keys (queues.foldl (luaReclaim keys now) found).2 := by
    intro queues
    induction queues with
    | nil => exact fun _ represents => represents
    | cons queue queues ih => exact fun found represents => ih _ (represents_luaReclaim represents)
  exact sweeps _ ([], server) represents

/-- The outbox is no part of what a job is spread over. -/
theorem represents_appendEvent {nameSpace queue : String} {ending : Ending} {now : Int}
    (represents : Represents tostring keys server) :
    Represents tostring keys (appendEvent keys nameSpace ending queue now server) := by
  have numbered : Represents tostring keys (server.incr (keys ++ "eventseq")).2 := by
    refine ⟨represents.places, fun queue status => ?_⟩
    rw [counters_incr_plain (by decide)]
    exact represents.counts queue status
  unfold appendEvent
  cases ending.event with
  | none => exact represents
  | some event =>
    by_cases silent : event.1 = ""
    · simpa [silent] using represents
    · simp only [silent, if_false]
      exact ⟨numbered.places, numbered.counts⟩

theorem represents_terminal {nameSpace : String} {ending : Ending} {now : Int}
    (represents : Represents tostring keys server)
    (waiting : ∀ hash, server.hashes (jobKey keys ending.jobId) = some hash →
      hash.status ≠ .queued) :
    Represents tostring keys (luaTerminal keys nameSpace ending now server).2 := by
  unfold luaTerminal
  cases stored : server.hashes (jobKey keys ending.jobId) with
  | none => exact represents
  | some hash =>
    have left := waiting hash stored
    cases status : hash.status with
    | queued => exact absurd status left
    | completed => simpa [status, Status.terminal] using represents
    | failed => simpa [status, Status.terminal] using represents
    | running =>
      obtain ⟨free, only⟩ := represents.held stored status
      simp only [status, Status.terminal, Bool.false_eq_true, if_false]
      refine represents_appendEvent (represents.write ending.jobId rfl (fun id apart => ⟨rfl, ?_⟩) ?_
        fun queue last => ?_)
      · rw [leasesOf_incr, leasesOf_decr, leasesOf_zrem_other apart]
        rfl
      · rw [seats_incr, seats_decr, seats_zrem, seats_hset, free, leasesOf_incr, leasesOf_decr,
          leasesOf_zrem_self (by simpa using only)]
        exact .ended ending.terminal
      · simp [stored, status]

end Scripts

section Runs

variable (tostring : Int → Int) (nameSpace : String)

/-- No call enqueues an id a second time, or requeues or ends a job while it waits in
the queue. -/
def tidy (server : Server) (step : Step) : Bool :=
  match step.op with
  | .enqueue _ _ given _ uuid => statusOf nameSpace server (newId given uuid) = none
  | .requeueForRetry jobId => statusOf nameSpace server jobId ≠ some .queued
  | .terminal ending => statusOf nameSpace server ending.jobId ≠ some .queued
  | .claim .. | .renewLease .. | .reclaimExpired _ => true

/-- Lua prints in full the lease that a claim or a renewal writes. -/
def prints (server : Server) (step : Step) : Bool :=
  match step.op with
  | .claim queue _ leaseS => tostring (step.now + leaseS) = step.now + leaseS ∨
      ∀ member ∈ server.members, member.key ≠ queueKey (keysOf nameSpace) queue
  | .renewLease jobId worker leaseS => tostring (step.now + leaseS) = step.now + leaseS ∨
      (server.hashes (jobKey (keysOf nameSpace) jobId)).all fun hash =>
        hash.status != .running || hash.claimedBy != worker
  | _ => true

def orderly (server : Server) (step : Step) : Bool :=
  tidy nameSpace server step && prints tostring nameSpace server step

variable {tostring nameSpace} {server : Server} {step : Step}

theorem statusOf_stored {jobId : String} {hash : JobHash}
    (stored : server.hashes (jobKey (keysOf nameSpace) jobId) = some hash) :
    statusOf nameSpace server jobId = some hash.status := by
  simp [statusOf, get, stored, toJob]

theorem represents_after (represents : Represents tostring (keysOf nameSpace) server)
    (allowed : tidy nameSpace server step = true) :
    Represents tostring (keysOf nameSpace) ((port tostring nameSpace).after server step) := by
  obtain ⟨op, now⟩ := step
  cases op with
  | enqueue queue payload given priority uuid =>
    refine represents_enqueue represents ?_
    cases stored : server.hashes (jobKey (keysOf nameSpace) (newId given uuid)) with
    | none => rfl
    | some hash => simp [tidy, statusOf_stored stored] at allowed
  | claim queue worker leaseS => exact represents_claim represents
  | renewLease jobId worker leaseS => exact represents_renew represents
  | reclaimExpired queue => exact represents_reclaim represents
  | requeueForRetry jobId =>
    refine represents_requeue represents fun hash stored queued => ?_
    simp [tidy, statusOf_stored stored, queued] at allowed
  | terminal ending =>
    refine represents_terminal represents fun hash stored queued => ?_
    simp [tidy, statusOf_stored stored, queued] at allowed

theorem represents_empty (keys : String) : Represents tostring keys {} where
  places jobId := ⟨rfl, rfl⟩
  counts queue status := by simp [census]

/-- Every lease in a running set is one that Lua prints in full. -/
def Printed (tostring : Int → Int) (server : Server) : Prop :=
  ∀ lease ∈ server.leases, tostring lease.score = lease.score

theorem leases_reclaimOne {keys queue jobId : String} {now : Int} {found : List String × Server} :
    (reclaimOne keys queue now found jobId).2.leases ⊆ found.2.leases := by
  unfold reclaimOne
  cases found.2.hashes (jobKey keys jobId) with
  | none => exact List.Subset.refl _
  | some hash =>
    by_cases running : hash.status = .running
    · simp only [running, if_true]
      exact List.filter_subset_self _
    · simp only [running, if_false]
      exact List.Subset.refl _

theorem leases_fold {ι : Type} {turn : List String × Server → ι → List String × Server}
    (once : ∀ found item, (turn found item).2.leases ⊆ found.2.leases) (items : List ι)
    (found : List String × Server) : (items.foldl turn found).2.leases ⊆ found.2.leases := by
  induction items generalizing found with
  | nil => exact List.Subset.refl _
  | cons item items ih => exact List.Subset.trans (ih _) (once found item)

theorem leases_reclaim {keys : String} {queue : Option String} {now : Int} :
    (reclaimExpired keys queue now server).2.leases ⊆ server.leases :=
  leases_fold (fun _ _ => leases_fold (fun _ _ => leases_reclaimOne) _ _) _ ([], server)

theorem leases_requeue {keys jobId : String} {now : Int} :
    (luaRequeue keys jobId now server).2.leases ⊆ server.leases := by
  unfold luaRequeue
  cases server.hashes (jobKey keys jobId) with
  | none => exact List.Subset.refl _
  | some hash =>
    cases isOver : hash.status.terminal with
    | true => simp only [isOver, if_true]; exact List.Subset.refl _
    | false =>
      simp only [isOver, Bool.false_eq_true, if_false]
      exact List.filter_subset_self _

theorem leases_terminal {keys : String} {ending : Ending} {now : Int} :
    (luaTerminal keys nameSpace ending now server).2.leases ⊆ server.leases := by
  have silent : ∀ (queue : String) (server : Server),
      (appendEvent keys nameSpace ending queue now server).leases = server.leases := by
    intro queue server
    unfold appendEvent
    split
    · rfl
    · split <;> rfl
  unfold luaTerminal
  cases server.hashes (jobKey keys ending.jobId) with
  | none => exact List.Subset.refl _
  | some hash =>
    cases isOver : hash.status.terminal with
    | true => simp only [isOver, if_true]; exact List.Subset.refl _
    | false =>
      simp only [isOver, Bool.false_eq_true, if_false, silent]
      exact List.filter_subset_self _

theorem printed_lease (lease : Lease) (printed : Printed tostring server)
    (whole : tostring lease.score = lease.score) : Printed tostring (server.lease lease) := by
  intro other present
  rcases (List.mem_orderedInsert _).mp present with rfl | old
  · exact whole
  · exact printed other (List.mem_of_mem_filter old)

theorem printed_after (printed : Printed tostring server)
    (allowed : prints tostring nameSpace server step = true) :
    Printed tostring ((port tostring nameSpace).after server step) := by
  obtain ⟨op, now⟩ := step
  cases op with
  | enqueue queue payload given priority uuid => exact printed
  | claim queue worker leaseS =>
    simp only [Port.after, port, call, Prod.map, luaClaim]
    cases popped : popMin (queueKey (keysOf nameSpace) queue) server.members with
    | none => exact printed
    | some found =>
      obtain ⟨front, back, split, -, key, -⟩ := popMin_cases popped
      have whole : tostring (now + leaseS) = now + leaseS := by
        simp only [prints, decide_eq_true_eq] at allowed
        exact allowed.resolve_right fun none => none found.1 (by simp [split]) key
      exact printed_lease ⟨_, _, _⟩ printed whole
  | renewLease jobId worker leaseS =>
    simp only [Port.after, port, call, Prod.map, luaRenew]
    cases stored : server.hashes (jobKey (keysOf nameSpace) jobId) with
    | none => exact printed
    | some hash =>
      by_cases holds : hash.status = .running ∧ hash.claimedBy = worker
      · have whole : tostring (now + leaseS) = now + leaseS := by
          simpa [prints, stored, holds] using allowed
        simp only [holds, and_self, if_true]
        exact printed_lease ⟨_, _, _⟩ printed whole
      · simpa [holds] using printed
  | reclaimExpired queue => exact fun lease present => printed lease (leases_reclaim present)
  | requeueForRetry jobId => exact fun lease present => printed lease (leases_requeue present)
  | terminal ending => exact fun lease present => printed lease (leases_terminal present)

theorem reach_represents
    (reached : Reach (port tostring nameSpace).move (orderly tostring nameSpace) {} server) :
    Represents tostring (keysOf nameSpace) server ∧ Printed tostring server := by
  induction reached with
  | start => exact ⟨represents_empty _, by simp [Printed]⟩
  | next step before allowed stepped ih =>
    obtain rfl := Option.some.inj stepped
    obtain ⟨tidied, printed⟩ := Bool.and_eq_true_iff.mp allowed
    exact ⟨represents_after ih.1 tidied, printed_after ih.2 printed⟩

end Runs

section Reading

variable (keys : String) (server : Server) (queue : String)

/-- The scores of a job's members of `q:<queue>`. -/
def queueScores (jobId : String) : List Int :=
  (server.members.filter fun member => member.key == queueKey keys queue &&
    member.jobId == jobId).map Member.score

/-- The scores of a job's members of `running:<queue>`. -/
def runningScores (jobId : String) : List Int :=
  (server.leases.filter fun lease => lease.key == runningKey keys queue &&
    lease.jobId == jobId).map Lease.score

/-- The jobs of a queue, its two sorted sets and its counters say the same. -/
structure Consistent : Prop where
  queued : ∀ jobId hash, server.hashes (jobKey keys jobId) = some hash → hash.queue = queue →
    hash.status = .queued → (queueScores keys server queue jobId).length = 1 ∧
      runningScores keys server queue jobId = []
  running : ∀ jobId hash, server.hashes (jobKey keys jobId) = some hash → hash.queue = queue →
    hash.status = .running → queueScores keys server queue jobId = [] ∧
      ∃ lapse, hash.leaseExpiresAt = some lapse ∧ runningScores keys server queue jobId = [lapse]
  ended : ∀ jobId hash, server.hashes (jobKey keys jobId) = some hash → hash.queue = queue →
    hash.status.terminal = true → queueScores keys server queue jobId = [] ∧
      runningScores keys server queue jobId = []
  counted : ∀ status, (census keys server queue status).encard = counts keys server queue status

variable {keys server queue}

theorem queueScores_eq (jobId : String) : queueScores keys server queue jobId =
    ((seats server jobId).filter fun seat => seat.1 == queueKey keys queue).map Prod.snd := by
  simp [queueScores, seats, List.filter_map, List.filter_filter, Function.comp_def]

theorem runningScores_eq (jobId : String) : runningScores keys server queue jobId =
    ((leasesOf server jobId).filter fun lease => lease.1 == runningKey keys queue).map
      Prod.snd := by
  simp [runningScores, leasesOf, List.filter_map, List.filter_filter, Function.comp_def]

theorem Represents.consistent {tostring : Int → Int} (represents : Represents tostring keys server)
    (printed : Printed tostring server) : Consistent keys server queue := by
  have placed : ∀ jobId hash, server.hashes (jobKey keys jobId) = some hash →
      Placed tostring keys hash (seats server jobId) (leasesOf server jobId) := by
    intro jobId hash stored
    simpa only [InPlace, stored] using represents.places jobId
  constructor
  · intro jobId hash stored mine queued
    rw [queueScores_eq, runningScores_eq]
    have place := placed jobId hash stored
    generalize seats server jobId = own at place ⊢
    generalize leasesOf server jobId = leased at place ⊢
    cases place with
    | queued => simp [mine]
    | running status =>
      rw [queued] at status
      cases status
    | ended status =>
      rw [queued] at status
      cases status
  · intro jobId hash stored mine running
    obtain ⟨free, lapse, lease, leased⟩ := (placed jobId hash stored).of_running running
    have held : (runningKey keys hash.queue, lapse) ∈ leasesOf server jobId := by simp [leased]
    obtain ⟨written, present, same⟩ := List.mem_map.mp held
    have whole := printed written (List.mem_of_mem_filter present)
    rw [(Prod.mk.inj same).2] at whole
    rw [queueScores_eq, runningScores_eq, free, leased]
    exact ⟨rfl, lapse, whole ▸ lease, by simp [mine]⟩
  · intro jobId hash stored mine terminal
    rw [queueScores_eq, runningScores_eq]
    have place := placed jobId hash stored
    generalize seats server jobId = own at place ⊢
    generalize leasesOf server jobId = leased at place ⊢
    cases place with
    | queued status =>
      rw [status] at terminal
      cases terminal
    | running status =>
      rw [status] at terminal
      cases terminal
    | ended => exact ⟨rfl, rfl⟩
  · intro status
    obtain ⟨finite, counted⟩ := represents.counts queue status
    rw [Redis.counts, counted, Int.toNat_natCast, finite.cast_ncard_eq]

end Reading

end Redis

/-- In every run whose calls are orderly, each queue's jobs are where their status says
and its counters count them. -/
theorem representation_kept (tostring : Int → Int) (nameSpace : String) {server : Redis.Server}
    (reached : Reach (Redis.port tostring nameSpace).move (Redis.orderly tostring nameSpace) {}
      server) (queue : String) : Redis.Consistent (Redis.keysOf nameSpace) server queue :=
  (Redis.reach_represents reached).1.consistent (Redis.reach_represents reached).2

/-- A job is claimed, taken back, claimed again and ended. -/
theorem retried_job_represented :
    Redis.counts (Redis.keysOf "default")
        (Sample.after (Redis.orderly id "default") Sample.retried) "q" .completed = 1 ∧
      Redis.Consistent (Redis.keysOf "default")
        (Sample.after (Redis.orderly id "default") Sample.retried) "q" :=
  ⟨by decide, representation_kept id "default" (.follow_getD _ (by decide)) "q"⟩

/-- A complete that comes while the job waits in the queue leaves its member there. -/
theorem late_complete_misplaced :
    ¬ ∀ (tostring : Int → Int) (nameSpace : String) (server : Redis.Server),
      Reach (Redis.port tostring nameSpace).move anyCall {} server →
        ∀ queue, Redis.Consistent (Redis.keysOf nameSpace) server queue := by
  intro consistent
  have reached : Reach Sample.redis.move anyCall {} (Sample.after anyCall Sample.lateComplete) :=
    .follow_getD _ (by decide)
  obtain ⟨gone, -⟩ := (consistent id "default" _ reached "q").ended "x" _
    (Option.some_get (by decide)).symm (by decide) (by decide)
  have left : Redis.queueScores (Redis.keysOf "default")
      (Sample.after anyCall Sample.lateComplete) "q" "x" = [0] := by decide
  rw [gone] at left
  cases left

end QueueWorkflows.Backend
