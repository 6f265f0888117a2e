import QueueWorkflows.Backend.Ledger
import QueueWorkflows.Backend.Representation

/-! Redis as an implementation of the ledger. A job's place in the queue goes by a
sequence number, which it is given anew each time it is put back: the order is that of
creation as long as a job that is put back is the youngest of those that wait beside it. -/

namespace QueueWorkflows.Backend

/-- The order of the running sets: by the end of the lease, and by id. -/
def Job.lapsesBefore (first second : Job) : Bool :=
  first.leaseExpiresAt.all fun early => second.leaseExpiresAt.all fun late =>
    early < late ∨ early = late ∧ first.id ≤ second.id

theorem Job.lapsed_some (queue : String) (now : Int) (row : Job) :
    row.lapsed (some queue) now = (row.queue == queue && row.lapsed none now) := by
  rw [Job.lapsed, Job.lapsed, Option.all_some, Option.all_none, Bool.and_true, Bool.and_comm]

namespace Ledger

variable {ledger : Ledger} {row other : Job} {jobId : String}

def born (ledger : Ledger) (jobId : String) : Option Int := (ledger.find jobId).map Job.createdAt

/-- In its queue and priority, the job was created after all that wait. -/
def Youngest (ledger : Ledger) (row : Job) : Prop :=
  ∀ other, ledger.find other.id = some other → other.queue = row.queue →
    other.priority = row.priority → other.status = .queued → other.createdAt < row.createdAt

theorem find_add_self : (ledger.add row).find row.id = some row := Function.update_self ..

theorem find_add_other (apart : jobId ≠ row.id) :
    (ledger.add row).find jobId = ledger.find jobId := Function.update_of_ne apart ..

/-- Changing the one job that is selected. -/
theorem update_one {selects : Job → Bool} {change : Job → Job}
    {keeps : ∀ row, (change row).id = row.id} (stored : ledger.find row.id = some row)
    (selected : selects row = true)
    (only : ∀ other, ledger.find other.id = some other → selects other = true → other.id = row.id) :
    ledger.update selects change keeps = ledger.add (change row) := by
  ext1 jobId
  by_cases own : jobId = row.id
  · subst own
    rw [find_update, stored, Option.map_some, if_pos selected, ← keeps row, find_add_self]
  · rw [find_add_other (by rwa [keeps row]), find_update]
    cases found : ledger.find jobId with
    | none => rfl
    | some other =>
      have named := ledger.keyed found
      have left : ¬ selects other = true := fun taken =>
        own (named ▸ only other (named ▸ found) taken)
      simp [left]

/-- Nothing is changed where the one job that may be selected is not there. -/
theorem update_absent {selects : Job → Bool} {change : Job → Job}
    {keeps : ∀ row, (change row).id = row.id} (absent : ledger.find jobId = none)
    (only : ∀ other, ledger.find other.id = some other → selects other = true → other.id = jobId) :
    ledger.update selects change keeps = ledger := by
  refine update_idle fun id row found selected => ?_
  have named := ledger.keyed found
  rw [← named] at found
  rw [only row found selected, absent] at found
  cases found

/-- Nor where it is not selected. -/
theorem update_unselected {selects : Job → Bool} {change : Job → Job}
    {keeps : ∀ row, (change row).id = row.id} (stored : ledger.find row.id = some row)
    (unselected : ¬ selects row = true)
    (only : ∀ other, ledger.find other.id = some other → selects other = true → other.id = row.id) :
    ledger.update selects change keeps = ledger := by
  refine update_idle fun id other found selected => ?_
  have named := ledger.keyed found
  rw [← named] at found
  rw [only other found selected, stored, Option.some.injEq] at found
  exact unselected (found ▸ selected)

/-- A change that keeps the time of creation. -/
theorem born_add {before : Job} (stored : ledger.find row.id = some before)
    (same : row.createdAt = before.createdAt) : (ledger.add row).born = ledger.born := by
  funext jobId
  by_cases own : jobId = row.id
  · subst own
    simp [born, find_add_self, stored, same]
  · simp [born, find_add_other own]

/-- The jobs of a queue can be swept: no lease ends at this very moment, and those whose
lease has lapsed are younger than all that wait and lapsed in the order of creation. -/
structure Sweepable (ledger : Ledger) (queue : String) (now : Int) : Prop where
  untied : ∀ row, ledger.find row.id = some row → row.queue = queue → row.status = .running →
    row.leaseExpiresAt ≠ some now
  young : ∀ row, ledger.find row.id = some row → row.queue = queue → row.lapsed none now = true →
    ledger.Youngest row
  inOrder : ∀ row other, ledger.find row.id = some row → ledger.find other.id = some other →
    row.queue = queue → other.queue = queue → row.priority = other.priority →
    row.lapsed none now = true → other.lapsed none now = true →
    row.createdAt < other.createdAt → row.lapsesBefore other = true

variable {now : Int}

/-- What is running after a sweep was running before it, and had not lapsed. -/
theorem running_of_swept {selects : Job → Bool}
    (stored : (ledger.update selects (Job.release now) (Job.id_release now)).find jobId = some row)
    (running : row.status = .running) : ledger.find jobId = some row ∧ ¬ selects row = true := by
  obtain ⟨before, found, same⟩ := Option.map_eq_some_iff.mp stored
  split at same
  · subst same
    cases running
  · rename_i left
    subst same
    exact ⟨found, left⟩

/-- A sweep of one queue leaves every queue ready for its own. -/
theorem Sweepable.after {queue other : String} (ready : ledger.Sweepable queue now) :
    Sweepable (ledger.update (Job.lapsed (some other) now) (Job.release now) (Job.id_release now))
      queue now := by
  have lapsed_cases : ∀ row, (ledger.update (Job.lapsed (some other) now) (Job.release now)
      (Job.id_release now)).find row.id = some row → row.queue = queue →
      row.lapsed none now = true → ledger.find row.id = some row ∧ queue ≠ other := by
    intro row stored mine lapsed
    obtain ⟨before, left⟩ := running_of_swept stored (Job.status_lapsed lapsed)
    refine ⟨before, fun same => left ?_⟩
    simpa [Job.lapsed, mine, same] using lapsed
  constructor
  · intro row stored mine running
    exact ready.untied row (running_of_swept stored running).1 mine running
  · intro row stored mine lapsed rival there queue level waits
    obtain ⟨before, apart⟩ := lapsed_cases row stored mine lapsed
    obtain ⟨old, found, same⟩ := Option.map_eq_some_iff.mp there
    split at same
    · rename_i swept
      subst same
      simp only [Job.lapsed, Bool.and_eq_true, Option.all_some, beq_iff_eq] at swept
      exact absurd ((mine ▸ queue).symm.trans swept.2) apart
    · subst same
      exact ready.young row before mine lapsed old found queue level waits
  · intro row rival stored there mine yours level lapsed lapsed'
    exact ready.inOrder row rival (lapsed_cases row stored mine lapsed).1
      (lapsed_cases rival there yours lapsed').1 mine yours level lapsed lapsed'

/-- The calls that Redis makes like the ledger. No call enqueues an id a second time, or
requeues or ends a job that waits; and a job is put back where no younger one waits. -/
def InTurn (ledger : Ledger) (op : Op) (now : Int) : Prop :=
  match op with
  | .enqueue _ _ given _ uuid => ledger.find (newId given uuid) = none
  | .claim .. | .renewLease .. => True
  | .reclaimExpired queue => ∀ name, queue.all (name == ·) = true → ledger.Sweepable name now
  | .requeueForRetry jobId => ∀ row, ledger.find jobId = some row → row.status ≠ .queued ∧
      (row.status = .running → ledger.Youngest row)
  | .terminal ending => ∀ row, ledger.find ending.jobId = some row → row.status ≠ .queued

end Ledger

namespace Redis

theorem Member.before_iff {first second : Member} : first.before second ↔
    toLex (first.score, toLex (first.seq, first.jobId)) ≤
      toLex (second.score, toLex (second.seq, second.jobId)) := by
  simp only [Member.before, Prod.Lex.toLex_le_toLex]

instance : Std.Total Member.before := ⟨fun first second => by
  simpa only [Member.before_iff] using le_total (toLex (first.score, toLex (first.seq, first.jobId)))
    (toLex (second.score, toLex (second.seq, second.jobId)))⟩

instance : IsTrans Member Member.before := ⟨fun _ _ _ earlier later =>
  Member.before_iff.mpr ((Member.before_iff.mp earlier).trans (Member.before_iff.mp later))⟩

theorem Lease.before_iff {first second : Lease} : first.before second ↔
    toLex (first.score, first.jobId) ≤ toLex (second.score, second.jobId) := by
  simp only [Lease.before, Prod.Lex.toLex_le_toLex]

instance : Std.Total Lease.before := ⟨fun first second => by
  simpa only [Lease.before_iff] using
    le_total (toLex (first.score, first.jobId)) (toLex (second.score, second.jobId))⟩

instance : IsTrans Lease Lease.before := ⟨fun _ _ _ earlier later =>
  Lease.before_iff.mpr ((Lease.before_iff.mp earlier).trans (Lease.before_iff.mp later))⟩

section Line

variable {keys : String} {born : String → Option Int} {server after : Server} {member : Member}

/-- Where a queue member is ahead of another of its queue and score, its job is older. -/
def Turn (born : String → Option Int) (first second : Member) : Prop :=
  first.key = second.key → first.score = second.score → ∀ early late,
    born first.jobId = some early → born second.jobId = some late → early < late

/-- The queue sets are in order, and the order is that of creation. -/
structure InLine (keys : String) (born : String → Option Int) (server : Server) : Prop where
  sorted : server.members.Pairwise Member.before
  issued : ∀ member ∈ server.members, member.seq ≤ server.counters (keys ++ "seq")
  turns : server.members.Pairwise (Turn born)

theorem InLine.sublist (line : InLine keys born server)
    (fewer : after.members.Sublist server.members)
    (count : after.counters (keys ++ "seq") = server.counters (keys ++ "seq")) :
    InLine keys born after where
  sorted := line.sorted.sublist fewer
  issued member present := count ▸ line.issued member (fewer.subset present)
  turns := line.turns.sublist fewer

/-- A member with a new number goes to the end of its score. -/
theorem InLine.zadd (line : InLine keys born server)
    (newest : member.seq = server.counters (keys ++ "seq") + 1)
    (last : ∀ other ∈ server.members, Turn born other member)
    (members : after.members = (server.zadd member).members)
    (count : after.counters (keys ++ "seq") = server.counters (keys ++ "seq") + 1) :
    InLine keys born after := by
  have fewer : ∀ other ∈ server.members.filter fun other => !(other.key == member.key &&
      other.seq == member.seq && other.jobId == member.jobId), other ∈ server.members :=
    fun other present => List.mem_of_mem_filter present
  refine ⟨?_, fun other present => ?_, ?_⟩
  · rw [members]
    exact (line.sorted.filter _).orderedInsert member _
  · rw [members] at present
    rw [count]
    rcases (List.mem_orderedInsert _).mp present with rfl | old
    · exact newest.le
    · exact (line.issued other (fewer other old)).trans (Int.le_add_one le_rfl)
  · rw [members]
    refine Ranked.pairwise_insert (line.sorted.filter _) (line.turns.filter _)
      (fun other present _ => last other (fewer other present)) fun other present ahead => ?_
    intro key score
    have issued := line.issued other (fewer other present)
    rcases ahead with low | ⟨-, early | ⟨together, -⟩⟩ <;> omega

end Line

section Mirror

variable {tostring : Int → Int} {keys : String} {clock now : Int} {ledger : Ledger}
  {server after : Server} {jobId queue : String} {hash : JobHash} {row before : Job}

/-- What the hash of a job and its row have in common. The lease is compared with the
score in the running set: the hash only has it as Lua prints it. -/
structure Same (keys : String) (server : Server) (hash : JobHash) (row : Job) : Prop where
  id : hash.id = row.id
  queue : hash.queue = row.queue
  status : hash.status = row.status
  payload : hash.payload = row.payload
  priority : hash.priority = row.priority
  running : row.status = .running → row.claimedBy = some hash.claimedBy ∧ ∃ lapse,
    row.leaseExpiresAt = some lapse ∧
      leasesOf server row.id = [(runningKey keys row.queue, lapse)]

/-- The server holds the jobs of the ledger, each queue in the order of creation. -/
structure Mirrors (tostring : Int → Int) (keys : String) (clock : Int) (ledger : Ledger)
    (server : Server) : Prop where
  represents : Represents tostring keys server
  absent : ∀ jobId, ledger.find jobId = none → server.hashes (jobKey keys jobId) = none
  same : ∀ jobId row, ledger.find jobId = some row →
    ∃ hash, server.hashes (jobKey keys jobId) = some hash ∧ Same keys server hash row
  line : InLine keys ledger.born server
  leases : server.leases.Pairwise Lease.before
  listed : ∀ jobId row, ledger.find jobId = some row → row.queue ∈ server.sets (keys ++ "queues")
  past : ∀ jobId row, ledger.find jobId = some row → row.createdAt ≤ clock
  apart : ∀ row other, ledger.find row.id = some row → ledger.find other.id = some other →
    row.createdAt = other.createdAt → row.id = other.id

theorem Mirrors.later (mirrors : Mirrors tostring keys clock ledger server) (later : clock ≤ now) :
    Mirrors tostring keys now ledger server :=
  { mirrors with past := fun id row stored => (mirrors.past id row stored).trans later }

theorem Mirrors.stored (mirrors : Mirrors tostring keys clock ledger server)
    (found : server.hashes (jobKey keys jobId) = some hash) :
    ∃ row, ledger.find jobId = some row ∧ Same keys server hash row := by
  cases held : ledger.find jobId with
  | none =>
    rw [mirrors.absent jobId held] at found
    cases found
  | some row =>
    obtain ⟨other, there, same⟩ := mirrors.same jobId row held
    obtain rfl := Option.some.inj (there.symm.trans found)
    exact ⟨row, rfl, same⟩

theorem Mirrors.missing (mirrors : Mirrors tostring keys clock ledger server)
    (found : server.hashes (jobKey keys jobId) = none) : ledger.find jobId = none := by
  cases held : ledger.find jobId with
  | none => rfl
  | some row =>
    obtain ⟨hash, there, -⟩ := mirrors.same jobId row held
    rw [found] at there
    cases there

/-- A script that writes the hash of one job mirrors a change of that job's row. -/
theorem Mirrors.write (mirrors : Mirrors tostring keys clock ledger server)
    (represents : Represents tostring keys after)
    (written : after.hashes = Function.update server.hashes (jobKey keys row.id) (some hash))
    (own : Same keys after hash row)
    (others : ∀ id, row.id ≠ id → leasesOf after id = leasesOf server id)
    (line : InLine keys (ledger.add row).born after) (leases : after.leases.Pairwise Lease.before)
    (queues : ∀ queue, queue ∈ server.sets (keys ++ "queues") → queue ∈ after.sets (keys ++ "queues"))
    (listed : row.queue ∈ after.sets (keys ++ "queues")) (later : clock ≤ now)
    (past : row.createdAt ≤ now)
    (apart : ∀ other, ledger.find other.id = some other → other.id ≠ row.id →
      row.createdAt ≠ other.createdAt) :
    Mirrors tostring keys now (ledger.add row) after where
  represents := represents
  absent id missing := by
    by_cases mine : id = row.id
    · subst mine
      rw [Ledger.find_add_self] at missing
      cases missing
    · rw [Ledger.find_add_other mine] at missing
      rw [written, Function.update_of_ne fun same => mine (jobKey_inj.mp same)]
      exact mirrors.absent id missing
  same id found stored := by
    by_cases mine : id = row.id
    · subst mine
      rw [Ledger.find_add_self, Option.some.injEq] at stored
      subst stored
      exact ⟨hash, by rw [written, Function.update_self], own⟩
    · rw [Ledger.find_add_other mine] at stored
      obtain ⟨other, there, same⟩ := mirrors.same id found stored
      refine ⟨other, ?_, same.id, same.queue, same.status, same.payload, same.priority, ?_⟩
      · rw [written, Function.update_of_ne fun same => mine (jobKey_inj.mp same)]
        exact there
      · intro running
        rw [others _ fun equal => mine (by rw [equal, ledger.keyed stored])]
        exact same.running running
  line := line
  leases := leases
  listed id found stored := by
    by_cases mine : id = row.id
    · subst mine
      rw [Ledger.find_add_self, Option.some.injEq] at stored
      subst stored
      exact listed
    · rw [Ledger.find_add_other mine] at stored
      exact queues _ (mirrors.listed id found stored)
  past id found stored := by
    by_cases mine : id = row.id
    · subst mine
      rw [Ledger.find_add_self, Option.some.injEq] at stored
      subst stored
      exact past
    · rw [Ledger.find_add_other mine] at stored
      exact (mirrors.past id found stored).trans later
  apart first second early late together := by
    by_cases mine : first.id = row.id <;> by_cases yours : second.id = row.id
    · rw [mine, yours]
    · rw [mine, Ledger.find_add_self, Option.some.injEq] at early
      rw [Ledger.find_add_other yours] at late
      subst early
      exact absurd together (apart second late yours)
    · rw [yours, Ledger.find_add_self, Option.some.injEq] at late
      rw [Ledger.find_add_other mine] at early
      subst late
      exact absurd together.symm (apart first early mine)
    · rw [Ledger.find_add_other mine] at early
      rw [Ledger.find_add_other yours] at late
      exact mirrors.apart first second early late together

/-- The same for a row that was there before, in the same queue. -/
theorem Mirrors.rewrite (mirrors : Mirrors tostring keys clock ledger server)
    (stored : ledger.find row.id = some before) (queue : row.queue = before.queue)
    (created : row.createdAt = before.createdAt) (later : clock ≤ now)
    (represents : Represents tostring keys after)
    (written : after.hashes = Function.update server.hashes (jobKey keys row.id) (some hash))
    (own : Same keys after hash row)
    (others : ∀ id, row.id ≠ id → leasesOf after id = leasesOf server id)
    (line : InLine keys ledger.born after) (leases : after.leases.Pairwise Lease.before)
    (queues : after.sets = server.sets) : Mirrors tostring keys now (ledger.add row) after := by
  have named := ledger.keyed stored
  refine mirrors.write represents written own others ?_ leases (by simp [queues]) ?_ later ?_ ?_
  · rw [Ledger.born_add stored created]
    exact line
  · rw [queues, queue]
    exact mirrors.listed _ before stored
  · rw [created]
    exact (mirrors.past _ before stored).trans later
  · intro other there apart together
    rw [created] at together
    exact apart (named ▸ (mirrors.apart before other (named ▸ stored) there together).symm)

/-- A queued row has its member in the queue. -/
theorem Mirrors.member (mirrors : Mirrors tostring keys clock ledger server)
    (stored : ledger.find row.id = some row) (queued : row.status = .queued) :
    ∃ member ∈ server.members, member.jobId = row.id ∧ member.key = queueKey keys row.queue ∧
      member.score = -row.priority := by
  obtain ⟨hash, found, same⟩ := mirrors.same _ row stored
  have place := mirrors.represents.places row.id
  simp only [InPlace, found] at place
  generalize held : seats server row.id = own at place
  generalize leasesOf server row.id = leased at place
  cases place with
  | queued =>
    obtain ⟨member, alone, seat⟩ := List.map_eq_singleton_iff.mp held
    have listed : member ∈ server.members.filter (·.jobId == row.id) := by simp [alone]
    obtain ⟨present, mine⟩ := List.mem_filter.mp listed
    rw [Prod.mk.injEq, same.queue, same.priority] at seat
    exact ⟨member, present, by simpa using mine, seat.1, seat.2⟩
  | running status =>
    rw [same.status, queued] at status
    cases status
  | ended status =>
    rw [same.status, queued] at status
    cases status

/-- The member that a claim pops is that of the job whose turn it is. -/
theorem Mirrors.next (mirrors : Mirrors tostring keys clock ledger server)
    {member : Member} {members : List Member}
    (popped : popMin (queueKey keys queue) server.members = some (member, members)) :
    ∃ row, row.id = member.jobId ∧ ledger.Next queue row := by
  obtain ⟨front, back, split, -, key, skipped⟩ := popMin_cases popped
  have present : member ∈ server.members := by simp [split]
  obtain ⟨hash, found, queued, own, score, -⟩ := mirrors.represents.seated present
  obtain ⟨row, stored, same⟩ := mirrors.stored found
  have named := ledger.keyed stored
  have mine : row.queue = queue := by
    rw [key, same.queue] at own
    simpa [queueKey] using own.symm
  have level : member.score = -row.priority := by rw [score, same.priority]
  refine ⟨row, named, named ▸ stored, mine, same.status ▸ queued, ?_⟩
  intro other there queue waits
  obtain ⟨rival, listed, id, seat, place⟩ := mirrors.member there waits
  rw [queue] at seat
  rw [split] at listed
  rcases List.mem_append.mp listed with early | late
  · exact absurd seat (skipped rival early)
  · rcases List.mem_cons.mp late with rfl | behind
    · rw [id] at stored
      obtain rfl := Option.some.inj (stored.symm.trans there)
      exact .inr ⟨rfl, .inr ⟨rfl, le_rfl⟩⟩
    · have sorted := mirrors.line.sorted
      have turns := mirrors.line.turns
      rw [split, List.pairwise_append, List.pairwise_cons] at sorted turns
      have ahead := sorted.2.1.1 rival behind
      by_cases lower : other.priority < row.priority
      · exact .inl lower
      · have equal : row.priority = other.priority := by
          rcases ahead with less | ⟨same, -⟩ <;> omega
        refine .inr ⟨equal, .inl (turns.2.1.1 rival behind ?_ ?_ _ _ ?_ ?_)⟩
        · rw [key, seat]
        · omega
        · simp [Ledger.born, stored]
        · simp [Ledger.born, id, there]

theorem popMin_none {key : String} {members : List Member} (empty : popMin key members = none) :
    ∀ member ∈ members, member.key ≠ key := by
  induction members with
  | nil => simp
  | cons first rest ih =>
    unfold popMin at empty
    split at empty
    · cases empty
    · rename_i apart
      intro member present
      rcases List.mem_cons.mp present with rfl | later
      · exact apart
      · exact ih (Option.map_eq_none_iff.mp empty) member later

theorem Mirrors.next_none (mirrors : Mirrors tostring keys clock ledger server)
    (empty : popMin (queueKey keys queue) server.members = none) : ledger.next queue = none := by
  apply Ledger.next_none
  intro row next
  obtain ⟨member, present, -, key, -⟩ := mirrors.member next.stored next.queued
  rw [next.mine] at key
  exact popMin_none empty member present key

theorem seqKey_ne {status : Status} : keys ++ "seq" ≠ countKey keys queue status :=
  Ne.symm (countKey_ne (by decide))

@[simp] theorem seq_incr_count {status : Status} :
    (server.incr (countKey keys queue status)).2.counters (keys ++ "seq") =
      server.counters (keys ++ "seq") := by
  simp [Server.incr, Function.update_of_ne seqKey_ne]

@[simp] theorem seq_decr_count {status : Status} :
    (server.decr (countKey keys queue status)).counters (keys ++ "seq") =
      server.counters (keys ++ "seq") := by
  simp [Server.decr, Function.update_of_ne seqKey_ne]

theorem sorted_lease (sorted : server.leases.Pairwise Lease.before) (lease : Lease) :
    (server.lease lease).leases.Pairwise Lease.before :=
  (sorted.filter _).orderedInsert lease _

theorem mirrors_claim (nameSpace queue worker : String) (leaseS : Int)
    (mirrors : Mirrors tostring keys clock ledger server) (later : clock ≤ now) :
    (luaClaim keys tostring queue worker leaseS now server).1.map JobHash.id =
        (ledger.call nameSpace (.claim queue worker leaseS) now).1 ∧
      Mirrors tostring keys now (ledger.call nameSpace (.claim queue worker leaseS) now).2
        (luaClaim keys tostring queue worker leaseS now server).2 := by
  have represents : Represents tostring keys
      (luaClaim keys tostring queue worker leaseS now server).2 :=
    represents_claim mirrors.represents
  unfold luaClaim at represents ⊢
  cases popped : popMin (queueKey keys queue) server.members with
  | none =>
    simp only [Ledger.call, mirrors.next_none popped]
    exact ⟨rfl, mirrors.later later⟩
  | some found =>
    obtain ⟨member, members⟩ := found
    obtain ⟨row, named, next⟩ := mirrors.next popped
    obtain ⟨front, back, split, left, -, -⟩ := popMin_cases popped
    obtain ⟨hash, stored, same⟩ := mirrors.same _ row next.stored
    have present : member ∈ server.members := by simp [split]
    obtain ⟨-, -, -, -, -, free, -⟩ := mirrors.represents.seated present
    simp only [popped, ← named, stored, Option.getD_some] at represents free ⊢
    have changed : ledger.update (·.id == row.id) (Job.start worker leaseS now)
        (Job.id_start worker leaseS now) = ledger.add (row.start worker leaseS now) :=
      Ledger.update_one next.stored (by simp) fun other _ => by simp
    simp only [Ledger.call, Ledger.next_eq next, changed]
    refine ⟨by simp [same.id], mirrors.rewrite next.stored rfl rfl later represents rfl
      ⟨same.id, same.queue, rfl, same.payload, same.priority, fun _ => ⟨rfl, _, rfl, ?_⟩⟩
      (fun id apart => ?_) (mirrors.line.sublist ?_ ?_) (sorted_lease mirrors.leases _) rfl⟩
    · rw [leasesOf_incr, leasesOf_decr, show (row.start worker leaseS now).queue = queue from next.mine]
      refine leasesOf_lease_self fun held mine => ?_
      have old : held ∈ leasesOf server row.id := mine
      rw [free] at old
      cases old
    · rw [leasesOf_incr, leasesOf_decr, leasesOf_lease_other apart]
      rfl
    · show members.Sublist server.members
      rw [left, split]
      exact List.Sublist.append_left (List.sublist_cons_self member back) front
    · simp

theorem mirrors_enqueue (nameSpace : String) (mirrors : Mirrors tostring keys clock ledger server)
    (later : clock < now) {payload : Dict} {priority : Int}
    (fresh : ledger.find jobId = none) :
    Mirrors tostring keys now
      (ledger.add (Ledger.newRow nameSpace queue payload jobId priority now))
      (luaEnqueue keys nameSpace queue payload jobId priority now server) := by
  have absent := mirrors.absent jobId fresh
  have unseated : ∀ member ∈ server.members, member.jobId ≠ jobId := by
    intro member present mine
    obtain ⟨hash, found, -⟩ := mirrors.represents.seated present
    rw [mine, absent] at found
    cases found
  have known : ∀ member ∈ server.members,
      (ledger.add (Ledger.newRow nameSpace queue payload jobId priority now)).born member.jobId =
        ledger.born member.jobId := by
    intro member present
    rw [Ledger.born, Ledger.find_add_other (unseated member present), Ledger.born]
  have line : InLine keys
      (ledger.add (Ledger.newRow nameSpace queue payload jobId priority now)).born server := by
    refine ⟨mirrors.line.sorted, mirrors.line.issued, ?_⟩
    refine mirrors.line.turns.imp_of_mem fun {first second} here there turn => ?_
    intro key score early late
    rw [known first here, known second there]
    exact turn key score early late
  have queues : (luaEnqueue keys nameSpace queue payload jobId priority now server).sets
      (keys ++ "queues") = (server.sets (keys ++ "queues")).insert queue :=
    Function.update_self ..
  refine mirrors.write (represents_enqueue mirrors.represents absent) rfl
    ⟨rfl, rfl, rfl, rfl, rfl, nofun⟩ (fun id apart => rfl)
    (line.zadd rfl (fun other present => ?_) rfl ?_) mirrors.leases (fun other old => ?_) ?_
    later.le le_rfl ?_
  · intro key score early late
    rw [known other present]
    intro old new
    obtain ⟨row, stored, rfl⟩ := Option.map_eq_some_iff.mp old
    rw [Ledger.born, show (ledger.add (Ledger.newRow nameSpace queue payload jobId priority
      now)).find jobId = _ from Ledger.find_add_self, Option.map_some, Option.some.injEq] at new
    exact new ▸ (mirrors.past _ row stored).trans_lt later
  · simp only [luaEnqueue, seq_incr_count]
    exact Function.update_self ..
  · rw [queues]
    exact List.mem_insert_of_mem old
  · rw [queues]
    exact List.mem_insert_self
  · intro other stored apart together
    exact absurd together (mirrors.past _ other stored |>.trans_lt later).ne'

theorem mirrors_renew (nameSpace : String) (mirrors : Mirrors tostring keys clock ledger server)
    (later : clock ≤ now) {worker : String} {leaseS : Int} :
    Mirrors tostring keys now (ledger.call nameSpace (.renewLease jobId worker leaseS) now).2
      (luaRenew keys tostring jobId worker leaseS now server).2 := by
  have represents : Represents tostring keys
      (luaRenew keys tostring jobId worker leaseS now server).2 :=
    represents_renew mirrors.represents
  simp only [Ledger.call]
  have owner : ∀ row, ledger.find row.id = some row → Mongo.renews jobId worker row = true →
      row.id = jobId := by
    intro row _ renews
    simp only [Mongo.renews, Bool.and_eq_true, beq_iff_eq] at renews
    exact renews.1.1
  unfold luaRenew at represents ⊢
  cases found : server.hashes (jobKey keys jobId) with
  | none =>
    rw [Ledger.update_absent (mirrors.missing found) owner]
    exact mirrors.later later
  | some hash =>
    obtain ⟨row, stored, same⟩ := mirrors.stored found
    have named := ledger.keyed stored
    subst named
    by_cases holds : hash.status = .running ∧ hash.claimedBy = worker
    · have running : row.status = .running := same.status ▸ holds.1
      obtain ⟨claimed, lapse, -, leased⟩ := same.running running
      rw [Ledger.update_one stored (by simp [Mongo.renews, running, claimed, holds.2]) owner]
      simp only [found, holds, and_self, if_true] at represents ⊢
      refine mirrors.rewrite stored rfl rfl later represents rfl
        ⟨same.id, same.queue, running.symm, same.payload, same.priority,
          fun _ => ⟨?_, _, rfl, ?_⟩⟩ (fun id apart => ?_) ?_ (sorted_lease mirrors.leases _) rfl
      · exact claimed.trans (by rw [holds.2])
      · rw [show (row.extend leaseS now).queue = hash.queue from same.queue.symm]
        refine leasesOf_lease_self fun held mine => ?_
        rw [leasesOf_hset, leased, List.mem_singleton] at mine
        rw [mine, same.queue]
      · rw [leasesOf_lease_other apart]
        rfl
      · exact mirrors.line.sublist (List.Sublist.refl _) rfl
    · have idle : ¬ Mongo.renews row.id worker row = true := by
        intro renews
        simp only [Mongo.renews, Bool.and_eq_true, beq_iff_eq] at renews
        obtain ⟨claimed, -⟩ := same.running renews.1.2
        rw [renews.2, Option.some.injEq] at claimed
        exact holds ⟨same.status ▸ renews.1.2, claimed.symm⟩
      rw [Ledger.update_unselected stored idle owner]
      simpa [found, holds] using mirrors.later later

/-- A running job goes back to the queue: `_LUA_REQUEUE` and the body of `_LUA_RECLAIM`. -/
theorem mirrors_release (mirrors : Mirrors tostring keys clock ledger server)
    (stored : ledger.find row.id = some row) (young : ledger.Youngest row)
    (same : Same keys server hash row) (represents : Represents tostring keys after)
    (hashes : after.hashes = (server.hset (jobKey keys row.id) (hash.requeued now)).hashes)
    (members : after.members = (server.zadd ⟨queueKey keys row.queue, -row.priority,
      server.counters (keys ++ "seq") + 1, row.id⟩).members)
    (leases : after.leases = (server.zrem (runningKey keys row.queue) row.id).leases)
    (count : after.counters (keys ++ "seq") = server.counters (keys ++ "seq") + 1)
    (queues : after.sets = server.sets) :
    Mirrors tostring keys clock (ledger.add (row.release now)) after := by
  refine mirrors.rewrite stored rfl rfl le_rfl represents hashes
    ⟨same.id, same.queue, rfl, same.payload, same.priority, nofun⟩ (fun id apart => ?_)
    (mirrors.line.zadd rfl (fun other present => ?_) members count) ?_ queues
  · rw [leasesOf, leases]
    exact leasesOf_zrem_other apart
  · intro key score early late old new
    obtain ⟨hash, found, queued, seat, level, -⟩ := mirrors.represents.seated present
    obtain ⟨rival, there, mine⟩ := mirrors.stored found
    obtain ⟨_, held, rfl⟩ := Option.map_eq_some_iff.mp old
    obtain ⟨_, kept, rfl⟩ := Option.map_eq_some_iff.mp new
    obtain rfl := Option.some.inj (there.symm.trans held)
    obtain rfl := Option.some.inj (stored.symm.trans kept)
    have named := ledger.keyed there
    refine young rival (named ▸ there) ?_ ?_ (mine.status ▸ queued)
    · rw [key, mine.queue] at seat
      simpa [queueKey] using seat.symm
    · rw [score, mine.priority] at level
      simpa using level.symm
  · rw [leases]
    exact mirrors.leases.filter _

theorem openRow_id (jobId : String) (other : Job) (_ : ledger.find other.id = some other)
    (selected : Mongo.openRow jobId other = true) : other.id = jobId := by
  simp only [Mongo.openRow, Bool.and_eq_true, beq_iff_eq] at selected
  exact selected.1

theorem mirrors_requeue (nameSpace : String) (mirrors : Mirrors tostring keys clock ledger server)
    (later : clock ≤ now)
    (due : ∀ row, ledger.find jobId = some row → row.status ≠ .queued ∧
      (row.status = .running → ledger.Youngest row)) :
    Mirrors tostring keys now (ledger.call nameSpace (.requeueForRetry jobId) now).2
      (luaRequeue keys jobId now server).2 := by
  have represents : Represents tostring keys (luaRequeue keys jobId now server).2 := by
    refine represents_requeue mirrors.represents fun hash found queued => ?_
    obtain ⟨row, stored, same⟩ := mirrors.stored found
    exact (due row stored).1 (same.status ▸ queued)
  refine Mirrors.later ?_ later
  simp only [Ledger.call]
  unfold luaRequeue at represents ⊢
  cases found : server.hashes (jobKey keys jobId) with
  | none =>
    rw [Ledger.update_absent (mirrors.missing found) (openRow_id jobId)]
    exact mirrors
  | some hash =>
    obtain ⟨row, stored, same⟩ := mirrors.stored found
    have named := ledger.keyed stored
    subst named
    cases isOver : hash.status.terminal with
    | true =>
      have shut : ¬ Mongo.openRow row.id row = true := by simp [Mongo.openRow, ← same.status, isOver]
      rw [Ledger.update_unselected stored shut (openRow_id row.id)]
      simpa [isOver] using mirrors
    | false =>
      have running : row.status = .running :=
        Status.eq_running (same.status ▸ isOver) (due row stored).1
      have opened : Mongo.openRow row.id row = true := by simp [Mongo.openRow, ← same.status, isOver]
      rw [Ledger.update_one stored opened (openRow_id row.id)]
      simp only [found, isOver, Bool.false_eq_true, if_false] at represents ⊢
      refine mirrors_release mirrors stored ((due row stored).2 running) same represents rfl ?_ ?_ ?_
        rfl
      · rw [← same.queue, ← same.priority]
        rfl
      · rw [← same.queue]
        rfl
      · simp only [seq_incr_count, seq_decr_count, counters_zadd]
        exact Function.update_self ..

/-- The outbox has numbers and events of its own. -/
theorem appendEvent_frame (keys nameSpace : String) (ending : Ending) (queue : String) (now : Int)
    (server : Server) :
    (appendEvent keys nameSpace ending queue now server).hashes = server.hashes ∧
      (appendEvent keys nameSpace ending queue now server).members = server.members ∧
      (appendEvent keys nameSpace ending queue now server).leases = server.leases ∧
      (appendEvent keys nameSpace ending queue now server).sets = server.sets ∧
      (appendEvent keys nameSpace ending queue now server).counters (keys ++ "seq") =
        server.counters (keys ++ "seq") := by
  have apart : keys ++ "seq" ≠ keys ++ "eventseq" := by simp
  unfold appendEvent
  cases ending.event with
  | none => exact ⟨rfl, rfl, rfl, rfl, rfl⟩
  | some event =>
    by_cases silent : event.1 = ""
    · simp only [silent, if_true]
      exact ⟨trivial, trivial, trivial, trivial, trivial⟩
    · simp only [silent, if_false]
      exact ⟨rfl, rfl, rfl, rfl, Function.update_of_ne apart ..⟩

theorem mirrors_terminal (nameSpace : String) (mirrors : Mirrors tostring keys clock ledger server)
    (later : clock ≤ now) {ending : Ending}
    (due : ∀ row, ledger.find ending.jobId = some row → row.status ≠ .queued) :
    Mirrors tostring keys now (ledger.call nameSpace (.terminal ending) now).2
      (luaTerminal keys nameSpace ending now server).2 := by
  have represents : Represents tostring keys (luaTerminal keys nameSpace ending now server).2 := by
    refine represents_terminal mirrors.represents fun hash found queued => ?_
    obtain ⟨row, stored, same⟩ := mirrors.stored found
    exact due row stored (same.status ▸ queued)
  refine Mirrors.later ?_ later
  simp only [Ledger.call]
  unfold luaTerminal at represents ⊢
  cases found : server.hashes (jobKey keys ending.jobId) with
  | none =>
    rw [Ledger.update_absent (mirrors.missing found) (openRow_id ending.jobId)]
    exact mirrors
  | some hash =>
    obtain ⟨row, stored, same⟩ := mirrors.stored found
    have named := ledger.keyed stored
    rw [← named] at stored found
    have only : ∀ other, ledger.find other.id = some other →
        Mongo.openRow ending.jobId other = true → other.id = row.id := by
      rw [named]
      exact openRow_id ending.jobId
    cases isOver : hash.status.terminal with
    | true =>
      have shut : ¬ Mongo.openRow ending.jobId row = true := by
        simp [Mongo.openRow, ← same.status, isOver]
      rw [Ledger.update_unselected stored shut only]
      simpa [isOver] using mirrors
    | false =>
      have running : row.status = .running :=
        Status.eq_running (same.status ▸ isOver) (due row (named ▸ stored))
      have opened : Mongo.openRow ending.jobId row = true := by
        simp [Mongo.openRow, named, ← same.status, isOver]
      rw [Ledger.update_one stored opened only]
      simp only [← named, found, isOver, Bool.false_eq_true, if_false] at represents ⊢
      obtain ⟨hashes, members, leases, sets, count⟩ := appendEvent_frame keys nameSpace ending
        hash.queue now ((((server.hset (jobKey keys row.id) { hash with
          status := ending.status, result := ending.result, error := ending.error.getD "",
          updatedAt := now }).zrem (runningKey keys hash.queue) row.id).decr
            (countKey keys hash.queue hash.status)).incr (countKey keys hash.queue ending.status)).2
      refine mirrors.rewrite stored rfl rfl le_rfl represents hashes
        ⟨same.id, same.queue, rfl, same.payload, same.priority, fun status => ?_⟩
        (fun id apart => ?_) ?_ ?_ sets
      · have terminal := ending.terminal
        rw [show ending.status = .running from status] at terminal
        cases terminal
      · rw [leasesOf, leases]
        exact leasesOf_zrem_other apart
      · refine mirrors.line.sublist ?_ ?_
        · rw [members]
          exact List.Sublist.refl _
        · rw [count]
          simp
      · rw [leases]
        exact mirrors.leases.filter _

end Mirror

section Sweep

variable {tostring : Int → Int} {keys queue : String} {clock now : Int} {ledger : Ledger}
  {server : Server}

/-- One script of a sweep, over jobs in the order of their creation. -/
theorem mirrors_sweep (jobIds : List String) {found : List String × Server} {ledger : Ledger}
    (mirrors : Mirrors tostring keys clock ledger found.2)
    (running : ∀ id ∈ jobIds, ∃ row, ledger.find id = some row ∧ row.status = .running ∧
      row.queue = queue ∧ ledger.Youngest row) (single : jobIds.Nodup)
    (inOrder : jobIds.Pairwise fun first second => ∀ row other, ledger.find first = some row →
      ledger.find second = some other → row.priority = other.priority →
        row.createdAt < other.createdAt) :
    Mirrors tostring keys clock
      (ledger.update (fun row => jobIds.contains row.id) (Job.release now) (Job.id_release now))
      (jobIds.foldl (reclaimOne keys queue now) found).2 := by
  induction jobIds generalizing found ledger with
  | nil =>
    rw [Ledger.update_idle (by simp)]
    exact mirrors
  | cons jobId jobIds ih =>
    obtain ⟨row, stored, status, mine, young⟩ := running jobId List.mem_cons_self
    obtain rfl := ledger.keyed stored
    obtain ⟨hash, there, same⟩ := mirrors.same _ row stored
    obtain ⟨fresh, single⟩ := List.nodup_cons.mp single
    obtain ⟨ahead, inOrder⟩ := List.pairwise_cons.mp inOrder
    have turn : Mirrors tostring keys clock (ledger.add (row.release now))
        (reclaimOne keys queue now found row.id).2 := by
      have represents : Represents tostring keys (reclaimOne keys queue now found row.id).2 := by
        refine (represents_reclaimOne now mirrors.represents fun other held => ?_).1
        obtain rfl := Option.some.inj (there.symm.trans held)
        rw [same.queue, mine]
      unfold reclaimOne at represents ⊢
      simp only [there, same.status ▸ status, if_true] at represents ⊢
      refine mirrors_release mirrors stored young same represents rfl ?_ ?_ ?_ rfl
      · rw [mine, ← same.priority]
        rfl
      · rw [mine]
        rfl
      · simp only [seq_incr_count, seq_decr_count, counters_zadd]
        exact Function.update_self ..
    have self : (ledger.add (row.release now)).find row.id = some (row.release now) :=
      Ledger.find_add_self
    have others : ∀ id, id ≠ row.id → (ledger.add (row.release now)).find id = ledger.find id :=
      fun id apart => Ledger.find_add_other apart
    have left : ∀ id ∈ jobIds, (ledger.add (row.release now)).find id = ledger.find id :=
      fun id later => others id fun equal => fresh (equal ▸ later)
    have changed : ledger.update (fun other => (row.id :: jobIds).contains other.id)
        (Job.release now) (Job.id_release now) = (ledger.add (row.release now)).update
          (fun other => jobIds.contains other.id) (Job.release now) (Job.id_release now) := by
      ext1 id
      rw [Ledger.find_update, Ledger.find_update]
      by_cases own : id = row.id
      · subst own
        rw [stored, self]
        simp [fresh]
      · rw [others id own]
        refine Option.map_congr fun other held => ?_
        have apart : other.id ≠ row.id := fun equal => own ((ledger.keyed held).symm.trans equal)
        simp [apart]
    rw [List.foldl_cons, changed]
    refine ih turn (fun id later => ?_) single
      (inOrder.imp_of_mem fun {first second} here there before => ?_)
    · obtain ⟨next, held, status, mine, young⟩ := running id (List.mem_cons_of_mem _ later)
      refine ⟨next, (left id later).trans held, status, mine, fun other found queue level waits => ?_⟩
      by_cases own : other.id = row.id
      · rw [own, self, Option.some.injEq] at found
        subst found
        exact ahead id later row next stored held level
      · rw [others _ own] at found
        exact young other found queue level waits
    · rw [left _ here, left _ there]
      exact before

theorem Mirrors.leased (mirrors : Mirrors tostring keys clock ledger server) {lease : Lease}
    (present : lease ∈ server.leases) :
    ∃ row, row.id = lease.jobId ∧ ledger.find row.id = some row ∧ row.status = .running ∧
      lease.key = runningKey keys row.queue ∧ row.leaseExpiresAt = some lease.score := by
  obtain ⟨hash, found, running, key, -⟩ := mirrors.represents.leased present
  obtain ⟨row, stored, same⟩ := mirrors.stored found
  have named := ledger.keyed stored
  have status : row.status = .running := same.status ▸ running
  obtain ⟨-, lapse, ends, leased⟩ := same.running status
  refine ⟨row, named, named ▸ stored, status, by rw [key, same.queue], ?_⟩
  have held : (lease.key, lease.score) ∈ leasesOf server row.id := by
    rw [named]
    exact List.mem_map_of_mem (List.mem_filter.mpr ⟨present, by simp⟩)
  rw [leased, List.mem_singleton, Prod.mk.injEq] at held
  rw [ends, held.2]

theorem Mirrors.lease (mirrors : Mirrors tostring keys clock ledger server) {row : Job}
    (stored : ledger.find row.id = some row) (running : row.status = .running) :
    ∃ lease ∈ server.leases, lease.jobId = row.id ∧ lease.key = runningKey keys row.queue ∧
      row.leaseExpiresAt = some lease.score := by
  obtain ⟨hash, -, same⟩ := mirrors.same _ row stored
  obtain ⟨-, lapse, ends, leased⟩ := same.running running
  have held : (runningKey keys row.queue, lapse) ∈ leasesOf server row.id := by simp [leased]
  obtain ⟨lease, listed, place⟩ := List.mem_map.mp held
  obtain ⟨present, mine⟩ := List.mem_filter.mp listed
  obtain ⟨key, score⟩ := Prod.mk.inj place
  exact ⟨lease, present, by simpa using mine, key, by rw [ends, score]⟩

/-- No job has two leases. -/
theorem Represents.leases_nodup (represents : Represents tostring keys server) :
    (server.leases.map Lease.jobId).Nodup := by
  rw [List.nodup_iff_count_le_one]
  intro jobId
  have length : (server.leases.map Lease.jobId).count jobId = (leasesOf server jobId).length := by
    rw [List.count_eq_countP, List.countP_map, List.countP_eq_length_filter, leasesOf,
      List.length_map]
    rfl
  rw [length]
  have place := represents.places jobId
  unfold InPlace at place
  cases found : server.hashes (jobKey keys jobId) with
  | none =>
    simp only [found] at place
    rw [place.2]
    exact Nat.zero_le 1
  | some hash =>
    simp only [found] at place
    generalize seats server jobId = own at place
    generalize leasesOf server jobId = leased at place
    cases place <;> simp

theorem mirrors_luaReclaim (found : List String × Server)
    (mirrors : Mirrors tostring keys clock ledger found.2) (ready : ledger.Sweepable queue now) :
    Mirrors tostring keys clock
      (ledger.update (Job.lapsed (some queue) now) (Job.release now) (Job.id_release now))
      (luaReclaim keys now found queue).2 := by
  let expired := found.2.leases.filter fun lease =>
    lease.key == runningKey keys queue && lease.score ≤ now
  have due : ∀ lease ∈ expired, ∃ row, row.id = lease.jobId ∧ ledger.find row.id = some row ∧
      row.status = .running ∧ row.queue = queue ∧ row.leaseExpiresAt = some lease.score ∧
      row.lapsed none now = true := by
    intro lease listed
    obtain ⟨present, isOver⟩ := List.mem_filter.mp listed
    simp only [Bool.and_eq_true, beq_iff_eq, decide_eq_true_eq] at isOver
    obtain ⟨row, named, stored, running, key, ends⟩ := mirrors.leased present
    have mine : row.queue = queue := by
      rw [isOver.1] at key
      simpa [runningKey] using key.symm
    have early : lease.score < now := by
      refine lt_of_le_of_ne isOver.2 fun tied => ready.untied row stored mine running ?_
      rw [ends, tied]
    exact ⟨row, named, stored, running, mine, ends, by simp [Job.lapsed, running, ends, early]⟩
  have single : (expired.map Lease.jobId).Nodup :=
    mirrors.represents.leases_nodup.sublist (List.filter_sublist.map Lease.jobId)
  have selected : ledger.update (Job.lapsed (some queue) now) (Job.release now)
      (Job.id_release now) = ledger.update (fun row => (expired.map Lease.jobId).contains row.id)
        (Job.release now) (Job.id_release now) := by
    refine Ledger.update_congr fun id row stored => ?_
    have named := ledger.keyed stored
    rw [← named] at stored
    rw [Bool.eq_iff_iff, List.contains_iff_mem, List.mem_map]
    constructor
    · intro lapsed
      simp only [Job.lapsed, Bool.and_eq_true, beq_iff_eq, Option.all_some] at lapsed
      obtain ⟨⟨running, isOver⟩, mine⟩ := lapsed
      obtain ⟨lease, present, id, key, ends⟩ := mirrors.lease stored running
      rw [ends, Option.any_some, decide_eq_true_eq] at isOver
      refine ⟨lease, List.mem_filter.mpr ⟨present, ?_⟩, id⟩
      simp [key, mine, isOver.le]
    · rintro ⟨lease, listed, id⟩
      obtain ⟨other, same, there, running, mine, ends, lapsed⟩ := due lease listed
      rw [same, id, stored, Option.some.injEq] at there
      subst there
      simpa [Job.lapsed, mine] using lapsed
  rw [selected]
  refine mirrors_sweep _ mirrors (fun id listed => ?_) single ?_
  · obtain ⟨lease, member, rfl⟩ := List.mem_map.mp listed
    obtain ⟨row, named, stored, running, mine, -, lapsed⟩ := due lease member
    exact ⟨row, named ▸ stored, running, mine, ready.young row stored mine lapsed⟩
  · rw [List.pairwise_map]
    have sorted : expired.Pairwise fun first second =>
        first.before second ∧ first.jobId ≠ second.jobId :=
      (mirrors.leases.filter _).and (List.pairwise_map.mp single)
    refine sorted.imp_of_mem fun {first second} here there before row other stored found level => ?_
    obtain ⟨one, named, held, -, mine, ends, lapsed⟩ := due first here
    obtain ⟨two, named', held', -, mine', ends', lapsed'⟩ := due second there
    rw [named, stored, Option.some.injEq] at held
    rw [named', found, Option.some.injEq] at held'
    subst held held'
    rw [← named] at stored
    rw [← named'] at found
    by_contra late
    have behind := ready.inOrder other row found stored mine' mine level.symm lapsed' lapsed ?_
    · simp only [Job.lapsesBefore, ends, ends', Option.all_some, decide_eq_true_eq, named,
        named'] at behind
      rcases before.1 with early | ⟨tied, least⟩
      · omega
      · exact before.2 (le_antisymm least (by
          rcases behind with early | ⟨-, least⟩
          · omega
          · exact least))
    · refine lt_of_le_of_ne (not_lt.mp late) fun together => before.2 ?_
      rw [← named, ← named', mirrors.apart other row found stored together]

theorem mirrors_reclaims (queues : List String) (found : List String × Server) {ledger : Ledger}
    (mirrors : Mirrors tostring keys clock ledger found.2)
    (ready : ∀ queue ∈ queues, ledger.Sweepable queue now) :
    Mirrors tostring keys clock
      (ledger.update (fun row => queues.contains row.queue && row.lapsed none now)
        (Job.release now) (Job.id_release now))
      (queues.foldl (luaReclaim keys now) found).2 := by
  induction queues generalizing found ledger with
  | nil =>
    rw [Ledger.update_idle (by simp)]
    exact mirrors
  | cons queue queues ih =>
    have rest := ih _ (mirrors_luaReclaim found mirrors (ready queue List.mem_cons_self))
      fun other later => (ready other (List.mem_cons_of_mem _ later)).after
    rw [List.foldl_cons]
    convert rest using 1
    ext1 id
    simp only [Ledger.find_update, Option.map_map]
    refine Option.map_congr fun row _ => ?_
    by_cases lapsed : row.lapsed none now = true <;> by_cases own : row.queue = queue <;>
      simp [Job.lapsed_some, lapsed, own]

theorem mirrors_reclaim (nameSpace : String) (mirrors : Mirrors tostring keys clock ledger server)
    (later : clock ≤ now) {queue : Option String}
    (ready : ∀ name, queue.all (name == ·) = true → ledger.Sweepable name now) :
    Mirrors tostring keys now (ledger.call nameSpace (.reclaimExpired queue) now).2
      (reclaimExpired keys queue now server).2 := by
  refine Mirrors.later ?_ later
  unfold reclaimExpired
  simp only [Ledger.call]
  cases queue with
  | some name =>
    exact mirrors_luaReclaim ([], server) mirrors (ready name (by simp))
  | none =>
    have swept := mirrors_reclaims (server.sets (keys ++ "queues")) ([], server) mirrors
      fun name _ => ready name rfl
    rw [Ledger.update_congr fun id row stored => ?_]
    · exact swept
    · simp [mirrors.listed id row stored]

end Sweep

section Calls

variable {tostring : Int → Int} {nameSpace : String} {clock now : Int} {ledger : Ledger}
  {server : Server} {op : Op}

/-- Redis is the ledger while calls come in turn and the clock moves on. -/
theorem mirrors_call (mirrors : Mirrors tostring (keysOf nameSpace) clock ledger server)
    (later : clock < now) (allowed : ledger.InTurn op now) :
    taken op (call tostring nameSpace server ⟨op, now⟩).1 = (ledger.call nameSpace op now).1 ∧
      Mirrors tostring (keysOf nameSpace) now (ledger.call nameSpace op now).2
        (call tostring nameSpace server ⟨op, now⟩).2 := by
  cases op with
  | enqueue queue payload given priority uuid =>
    have fresh : ledger.find (newId given uuid) = none := allowed
    simp only [Ledger.call, fresh]
    exact ⟨rfl, mirrors_enqueue nameSpace mirrors later fresh⟩
  | claim queue worker leaseS =>
    obtain ⟨same, kept⟩ := mirrors_claim nameSpace queue worker leaseS mirrors later.le
    refine ⟨Eq.trans ?_ same, kept⟩
    simp only [taken, call, Prod.map]
    cases (luaClaim (keysOf nameSpace) tostring queue worker leaseS now server).1 <;> rfl
  | renewLease jobId worker leaseS => exact ⟨rfl, mirrors_renew nameSpace mirrors later.le⟩
  | reclaimExpired queue => exact ⟨rfl, mirrors_reclaim nameSpace mirrors later.le allowed⟩
  | requeueForRetry jobId => exact ⟨rfl, mirrors_requeue nameSpace mirrors later.le allowed⟩
  | terminal ending => exact ⟨rfl, mirrors_terminal nameSpace mirrors later.le allowed⟩

end Calls

end Redis

/-! ### The condition on a list of rows -/

section Rows

variable {rows : List Job} {ledger : Ledger} {op : Op} {now : Int}

/-- Two rows that the condition does not tell apart. -/
structure Job.Alike (first second : Job) : Prop where
  id : first.id = second.id
  queue : first.queue = second.queue
  status : first.status = second.status
  priority : first.priority = second.priority
  createdAt : first.createdAt = second.createdAt
  leaseExpiresAt : first.leaseExpiresAt = second.leaseExpiresAt

theorem Job.Alike.lapsed {first second : Job} (alike : first.Alike second) (queue : Option String)
    (now : Int) : first.lapsed queue now = second.lapsed queue now := by
  simp only [Job.lapsed, alike.status, alike.leaseExpiresAt, alike.queue]

end Rows

/-! ### Following the ledger -/

/-- What a reader of a job compares. -/
def Job.card (row : Job) : Status × Int × Dict := (row.status, row.priority, row.payload)

/-- A store makes the calls that meet `ok` as the ledger does, and reads the same. -/
structure Follows {σ ι : Type} (nameSpace : String) (port : Port σ ι) (label : Op → Int → ι)
    (ok : Ledger → Op → Int → Prop) (follows : Int → Ledger → σ → Prop) : Prop where
  call : ∀ {clock ledger store op now}, follows clock ledger store → clock < now →
    op.fits (2 ^ 63) = true → ok ledger op now →
    taken op (port.reply store (label op now)) = (ledger.call nameSpace op now).1 ∧
      follows now (ledger.call nameSpace op now).2 (port.after store (label op now))
  get : ∀ {clock ledger store}, follows clock ledger store → ∀ jobId,
    (port.get store jobId).map Job.card = (ledger.find jobId).map Job.card

theorem Mongo.follows (nameSpace : String) : Follows nameSpace (Mongo.port nameSpace) .whole
    (fun _ _ _ => True) fun clock ledger db =>
      ledger = Mongo.ledger db ∧ Mongo.InTurn clock db where
  call follow later fits _ := by
    obtain ⟨same, turns⟩ := Mongo.ledger_call nameSpace follow.2 later fits
    rw [follow.1, ← same]
    exact ⟨rfl, rfl, turns⟩
  get follow jobId := by
    rw [follow.1]
    rfl

theorem Redis.follows (tostring : Int → Int) (nameSpace : String) :
    Follows nameSpace (Redis.port tostring nameSpace) (fun op now => ⟨op, now⟩) Ledger.InTurn
      (Redis.Mirrors tostring (Redis.keysOf nameSpace)) where
  call follow later _ allowed := Redis.mirrors_call follow later allowed
  get {clock ledger store} follow jobId := by
    simp only [Redis.port, Redis.get]
    cases found : ledger.find jobId with
    | none => rw [follow.absent jobId found]; rfl
    | some row =>
      obtain ⟨hash, stored, same⟩ := follow.same jobId row found
      simp [stored, Redis.toJob, Job.card, same.status, same.priority, same.payload]

end QueueWorkflows.Backend
