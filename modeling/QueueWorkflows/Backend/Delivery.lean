import QueueWorkflows.Base.Cursor
import QueueWorkflows.Backend.Mongo
import QueueWorkflows.Backend.Representation
import QueueWorkflows.Backend.RowStores
import QueueWorkflows.Backend.Tenants

/-! What a reader of the outbox gets. It asks for the events above the highest number it
has seen, while calls that end jobs are under way. Postgres gives an event its number when
the row is inserted and shows it when the transaction commits; in MongoDB and Redis the
number is taken and the event shown together. -/

namespace QueueWorkflows.Backend

open Transaction (Reach follow)
open Sequenced (Reader Tracked Turn unread)

/-- The `limit` of `events`, where the caller gives none. -/
def pageLimit : Nat := 1000

/-- A store as a reader of one namespace sees it: what is done to it, the events that have
been committed, and what `events` returns. -/
structure Feed (σ ι : Type) where
  move : σ → ι → Option σ
  committed : σ → List Event
  events : σ → (since limit : Nat) → List Event

structure Watched (σ : Type) where
  store : σ
  reader : Reader Event := {}

inductive Watch (ι : Type) where
  | act (label : ι)
  | poll

namespace Feed

variable {σ ι : Type} (feed : Feed σ ι)

def step (watched : Watched σ) : Watch ι → Option (Watched σ)
  | .act label => (feed.move watched.store label).map fun store => {
      store
      reader := watched.reader.await
        ((feed.committed watched.store).length < (feed.committed store).length) }
  | .poll => some { watched with
      reader := watched.reader.receive Event.seq
        (feed.events watched.store watched.reader.since pageLimit) }

/-- Along every run whose steps meet `ok`: once the reader has polled after the last commit,
as often as the pages need, it has received every committed event. -/
def Complete (ok : Watched σ → Watch ι → Bool) (first : σ) : Prop :=
  ∀ watched, Reach feed.step ok { store := first } watched →
    (feed.committed watched.store).length ≤ pageLimit * watched.reader.polls →
    ∀ event ∈ feed.committed watched.store, event ∈ watched.reader.received

/-- The events are read in the order of their numbers, and each move does to the numbers
what may be done to them. -/
structure Numbered (holds : σ → Prop) (issued : σ → Nat) (flight : σ → List Nat) : Prop where
  pages : ∀ store since, holds store → feed.events store since pageLimit =
    (unread Event.seq since (feed.committed store)).take pageLimit
  turns : ∀ store label after, holds store → feed.move store label = some after →
    holds after ∧ Turn Event.seq (issued store) (flight store) (feed.committed store)
      (issued after) (flight after) (feed.committed after)

variable {feed} {holds : σ → Prop} {issued : σ → Nat} {flight : σ → List Nat}
  {ok : Watched σ → Watch ι → Bool} {first : σ}

theorem complete_of_numbered (numbered : feed.Numbered holds issued flight) (begin : holds first)
    (silent : feed.committed first = []) (grounded : flight first = [])
    (clear : ∀ watched, ok watched .poll = true → ∀ number ∈ flight watched.store,
      ∀ event ∈ feed.events watched.store watched.reader.since pageLimit, event.seq < number) :
    feed.Complete ok first := by
  have tracks : ∀ watched, Reach feed.step ok { store := first } watched →
      holds watched.store ∧ Tracked Event.seq pageLimit (issued watched.store)
        (flight watched.store) (feed.committed watched.store) watched.reader := by
    intro watched reached
    induction reached with
    | start =>
      rw [silent, grounded]
      exact ⟨begin, Sequenced.tracked_empty ..⟩
    | next label before allowed stepped kept =>
      rename_i watched after
      obtain ⟨good, tracked⟩ := kept
      cases label with
      | act label =>
        obtain ⟨store, moved, rfl⟩ := Option.map_eq_some_iff.mp stepped
        obtain ⟨still, turn⟩ := numbered.turns _ label store good moved
        exact ⟨still, tracked.turn turn⟩
      | poll =>
        cases stepped
        have past := clear watched allowed
        rw [numbered.pages _ _ good] at past ⊢
        exact ⟨good, tracked.receive past⟩
  intro watched reached polled
  exact (tracks watched reached).2.complete polled

end Feed

/-- The calls of the outbox pair. -/
def Op.announces : Op → Bool
  | .terminal ending => ending.event.isSome
  | _ => false

/-- The jobs whose rows a call writes. -/
def Port.writes {σ ι : Type} (port : Port σ ι) (state : σ) (step : ι) : List String :=
  match port.op step, port.reply state step with
  | _, .job row => (row.map Job.id).toList
  | _, .reclaimed jobIds => jobIds
  | .renewLease jobId _ _, .renewed true => [jobId]
  | _, _ => []

/-- What a transaction of `_terminal_with_event` has in hand once it has its row. -/
structure Pending where
  nameSpace : String
  ending : Ending
  eventType : String
  detail : Option Dict
  now : Int
  row : Job
  /-- The event it has inserted. -/
  inserted : Option Event := none

def Pending.event (pending : Pending) (seq : Nat) : Event where
  seq := seq
  jobId := pending.ending.jobId
  nameSpace := pending.nameSpace
  queue := pending.row.queue
  eventType := pending.eventType
  detail := pending.detail.getD []
  createdAt := pending.now

/-- The transaction with its event inserted. -/
def Pending.numbered (pending : Pending) (seq : Nat) : Pending :=
  { pending with inserted := some (pending.event seq) }

/-- A row that a transaction has written is locked until it ends. -/
def locks (pending : List Pending) (jobIds : List String) : Bool :=
  pending.any fun transaction => jobIds.contains transaction.ending.jobId

section Pending

variable {β : Type} {take : Pending → Option β} {pending : List Pending} {index : Nat}
  {transaction : Pending}

/-- One transaction apart from the others. -/
theorem filterMap_eraseIdx (found : pending[index]? = some transaction) :
    (pending.filterMap take).Perm ((take transaction).toList ++
      (pending.eraseIdx index).filterMap take) := by
  obtain ⟨within, rfl⟩ := List.getElem?_eq_some_iff.mp found
  have split := (List.getElem_cons_eraseIdx_perm within).symm.filterMap take
  cases taken : take pending[index] <;> simpa [List.filterMap_cons, taken] using split

theorem filterMap_set (found : pending[index]? = some transaction) (changed : Pending) :
    ((pending.set index changed).filterMap take).Perm ((take changed).toList ++
      (pending.eraseIdx index).filterMap take) := by
  obtain ⟨within, -⟩ := List.getElem?_eq_some_iff.mp found
  have split := (List.set_perm_cons_eraseIdx within changed).filterMap take
  cases taken : take changed <;> simpa [List.filterMap_cons, taken] using split

end Pending

namespace Postgres

/-- What is committed, and the transactions in progress. -/
structure Shared where
  db : Db := {}
  pending : List Pending := []

/-- A whole call, or a statement of a transaction in progress. -/
inductive Statement where
  | call (nameSpace : String) (step : Step)
  | mark (nameSpace : String) (ending : Ending) (now : Int)
  | insert (index : Nat)
  | commit (index : Nat)
  | rollback (index : Nat)

/-- The sequence gives out a number at the `INSERT`, whatever becomes of the transaction. -/
def move (shared : Shared) : Statement → Option Shared
  | .call nameSpace step =>
    if step.op.announces || locks shared.pending ((port nameSpace).writes shared.db step) then none
    else some { shared with db := (call nameSpace shared.db step).2 }
  | .mark nameSpace ending now =>
    match ending.event with
    | none => none
    | some (eventType, detail) =>
      if locks shared.pending [ending.jobId] then none
      else match (markIn nameSpace ending now shared.db).1 with
        | none => some shared
        | some row => some { shared with
            pending := shared.pending ++ [{ nameSpace, ending, eventType, detail, now, row }] }
  | .insert index =>
    (shared.pending[index]?.filter fun transaction => transaction.inserted.isNone).map
      fun transaction => {
        db := { shared.db with seq := shared.db.seq + 1 }
        pending := shared.pending.set index (transaction.numbered (shared.db.seq + 1)) }
  | .commit index =>
    shared.pending[index]?.bind fun transaction => transaction.inserted.map fun event => {
      db := { shared.db with
        jobs := shared.db.jobs.update (openRow transaction.nameSpace transaction.ending.jobId)
          (Job.finish transaction.ending transaction.now)
          (Job.id_finish transaction.ending transaction.now)
        events := shared.db.events ++ [event] }
      pending := shared.pending.eraseIdx index }
  | .rollback index => shared.pending[index]?.map fun _ =>
      { shared with pending := shared.pending.eraseIdx index }

/-- `WHERE namespace = … AND seq > … ORDER BY seq LIMIT …`. -/
def select (nameSpace : String) (db : Db) (since limit : Nat) : List Event :=
  let found := db.events.filter fun event => event.nameSpace == nameSpace && since < event.seq
  (found.insertionSort fun first second => first.seq ≤ second.seq).take limit

def feed (nameSpace : String) : Feed Shared Statement where
  move := move
  committed shared := shared.db.events.filter fun event => event.nameSpace == nameSpace
  events shared := select nameSpace shared.db

/-- The number of an event that is inserted and not committed. -/
def numberOf (nameSpace : String) (transaction : Pending) : Option Nat :=
  (transaction.inserted.filter fun event => event.nameSpace == nameSpace).map Event.seq

def flight (nameSpace : String) (pending : List Pending) : List Nat :=
  pending.filterMap (numberOf nameSpace)

/-- A poll does not return an event with a higher number than one that is inserted and not
committed. -/
def passesNone (nameSpace : String) (watched : Watched Shared) : Watch Statement → Bool
  | .poll => (flight nameSpace watched.store.pending).all fun number =>
      (select nameSpace watched.store.db watched.reader.since pageLimit).all fun event =>
        event.seq < number
  | .act _ => true

section Numbers

variable {nameSpace : String} {shared after : Shared}

theorem events_call {step : Step} {db : Db} (plain : step.op.announces = false) :
    (call nameSpace db step).2.events = db.events ∧ (call nameSpace db step).2.seq = db.seq := by
  unfold call
  cases called : step.op with
  | enqueue queue payload given priority uuid =>
    dsimp only [enqueue]
    split
    · exact ⟨rfl, rfl⟩
    · split <;> exact ⟨rfl, rfl⟩
  | claim queue worker leaseS =>
    dsimp only [claim]
    split <;> exact ⟨rfl, rfl⟩
  | renewLease jobId worker leaseS => exact ⟨rfl, rfl⟩
  | reclaimExpired queue => exact ⟨rfl, rfl⟩
  | requeueForRetry jobId => exact ⟨rfl, rfl⟩
  | terminal ending =>
    rw [called, Op.announces, Option.isSome_eq_false_iff, Option.isNone_iff_eq_none] at plain
    dsimp only [terminal]
    rw [plain]
    rcases marked : markIn nameSpace ending step.now db with ⟨_ | row, after⟩
    · exact ⟨rfl, rfl⟩
    · obtain rfl := congrArg Prod.snd marked
      exact ⟨rfl, rfl⟩

/-- What a statement does to the numbers and the events of a namespace. -/
def Turns (nameSpace : String) (shared after : Shared) : Prop :=
  Turn Event.seq shared.db.seq (flight nameSpace shared.pending)
    ((feed nameSpace).committed shared) after.db.seq (flight nameSpace after.pending)
    ((feed nameSpace).committed after)

/-- A transaction begins with its row, or finds none and ends. -/
theorem mark_cases {writer : String} {ending : Ending} {now : Int}
    (moved : move shared (.mark writer ending now) = some after) :
    after = shared ∨ ∃ transaction : Pending,
      after = { shared with pending := shared.pending ++ [transaction] } ∧
        transaction.inserted = none := by
  unfold move at moved
  dsimp only at moved
  cases said : ending.event with
  | none =>
    rw [said] at moved
    cases moved
  | some event =>
    rw [said] at moved
    dsimp only at moved
    cases locked : locks shared.pending [ending.jobId] with
    | true => simp [locked] at moved
    | false =>
      simp only [locked, Bool.false_eq_true, if_false] at moved
      cases marked : (markIn writer ending now shared.db).1 with
      | none =>
        rw [marked] at moved
        exact .inl (Option.some.inj moved).symm
      | some row =>
        rw [marked] at moved
        exact .inr ⟨_, (Option.some.inj moved).symm, rfl⟩

theorem turns_insert {index : Nat} (moved : move shared (.insert index) = some after) :
    Turns nameSpace shared after := by
  obtain ⟨transaction, found, rfl⟩ := Option.map_eq_some_iff.mp moved
  obtain ⟨found, fresh⟩ := Option.filter_eq_some_iff.mp found
  rw [Option.isNone_iff_eq_none] at fresh
  have idle : numberOf nameSpace transaction = none := by
    rw [numberOf, fresh]
    rfl
  have apart : (flight nameSpace shared.pending).Perm _ := filterMap_eraseIdx found
  have changed : (flight nameSpace (shared.pending.set index _)).Perm _ :=
    filterMap_set found (transaction.numbered (shared.db.seq + 1))
  rw [idle, Option.toList_none, List.nil_append] at apart
  by_cases mine : transaction.nameSpace = nameSpace
  · have numbered : numberOf nameSpace (transaction.numbered (shared.db.seq + 1)) =
        some (shared.db.seq + 1) := by
      simp [numberOf, Pending.numbered, Pending.event, mine]
    rw [numbered, Option.toList_some, List.singleton_append] at changed
    exact .issue (changed.trans (apart.symm.cons _))
  · have others : numberOf nameSpace (transaction.numbered (shared.db.seq + 1)) = none := by
      simp [numberOf, Pending.numbered, Pending.event, mine]
    rw [others, Option.toList_none, List.nil_append] at changed
    exact .lose (Nat.le_succ _) (changed.trans apart.symm).subperm

theorem turns_commit {index : Nat} (moved : move shared (.commit index) = some after) :
    Turns nameSpace shared after := by
  obtain ⟨transaction, found, moved⟩ := Option.bind_eq_some_iff.mp moved
  obtain ⟨event, inserted, rfl⟩ := Option.map_eq_some_iff.mp moved
  have apart : (flight nameSpace shared.pending).Perm _ := filterMap_eraseIdx found
  unfold Turns feed
  dsimp only
  rw [List.filter_append]
  by_cases mine : event.nameSpace = nameSpace
  · have numbered : numberOf nameSpace transaction = some event.seq := by
      simp [numberOf, inserted, mine]
    rw [numbered, Option.toList_some, List.singleton_append] at apart
    rw [List.filter_cons_of_pos (by simp [mine]), List.filter_nil]
    exact .publish apart
  · have others : numberOf nameSpace transaction = none := by
      simp [numberOf, inserted, mine]
    rw [others, Option.toList_none, List.nil_append] at apart
    rw [List.filter_cons_of_neg (by simp [mine]), List.filter_nil, List.append_nil]
    exact .lose le_rfl apart.symm.subperm

theorem numbered_feed (nameSpace : String) : (feed nameSpace).Numbered (fun _ => True)
    (fun shared => shared.db.seq) fun shared => flight nameSpace shared.pending where
  pages shared since _ := by
    show (List.insertionSort _ _).take _ = _
    rw [unread, feed, List.filter_filter]
    simp only [Bool.and_comm]
  turns shared label after _ moved := by
    refine ⟨trivial, show Turns nameSpace shared after from ?_⟩
    cases label with
    | call writer step =>
      simp only [feed, move] at moved
      split at moved
      · cases moved
      · rename_i free
        cases moved
        simp only [Bool.or_eq_true, not_or, Bool.not_eq_true] at free
        obtain ⟨events, seq⟩ := @events_call writer step shared.db free.1
        unfold Turns feed
        dsimp only
        rw [events, seq]
        exact .lose le_rfl (.refl _)
    | mark writer ending now =>
      rcases mark_cases moved with rfl | ⟨transaction, rfl, fresh⟩
      · exact .lose le_rfl (.refl _)
      · refine .lose le_rfl ?_
        have silent : numberOf nameSpace transaction = none := by
          rw [numberOf, fresh]
          rfl
        have same : flight nameSpace (shared.pending ++ [transaction]) =
            flight nameSpace shared.pending := by
          simp [flight, List.filterMap_append, silent]
        exact same ▸ .refl _
    | insert index => exact turns_insert moved
    | commit index => exact turns_commit moved
    | rollback index =>
      obtain ⟨transaction, found, rfl⟩ := Option.map_eq_some_iff.mp moved
      exact .lose le_rfl ((List.eraseIdx_sublist _ _).filterMap _).subperm

/-- Undisturbed, the statements of a transaction are the call. -/
theorem follow_terminal {db : Db} {ending : Ending} {now : Int} {row : Job}
    (said : ending.event.isSome = true)
    (marked : (markIn nameSpace ending now db).1 = some row) :
    follow move (fun _ _ => true) { db } [.mark nameSpace ending now, .insert 0, .commit 0] =
      some { db := (terminal nameSpace ending now db).2 } := by
  obtain ⟨⟨eventType, detail⟩, said⟩ := Option.isSome_iff_exists.mp said
  have ended : (terminal nameSpace ending now db).2 =
      { (markIn nameSpace ending now db).2 with
        seq := db.seq + 1
        events := db.events ++ [{
          seq := db.seq + 1, jobId := ending.jobId, nameSpace, queue := row.queue, eventType,
          detail := detail.getD [], createdAt := now }] } := by
    unfold terminal
    rw [said, ← Prod.eta (markIn nameSpace ending now db), marked]
    rfl
  rw [ended]
  simp only [follow, move, said, marked, locks, if_true, Option.bind_some, List.any_nil,
    Bool.false_eq_true, if_false, List.nil_append]
  rfl

end Numbers

end Postgres

namespace Mongo

/-- What is committed, and the transactions in progress. -/
structure Shared where
  db : Db := {}
  pending : List Pending := []

/-- A call outside the outbox, or an operation of a transaction in progress. -/
inductive Operation where
  | call (step : Step)
  | mark (ending : Ending) (now : Int)
  | nextEvent (index : Nat)
  | commit (index : Nat)
  | abort (index : Nat)

section Feed

variable (nameSpace : String)

/-- The documents that a call writes. -/
def writes (db : Db) : Step → List String
  | .reclaimNext _ _ jobId _ => [jobId]
  | step => (port nameSpace).writes db step

/-- `_next("eventseq", session=session)` writes the counter's document: a second transaction
that comes to it before the first has ended is in conflict with it, and aborts. -/
def move (shared : Shared) : Operation → Option Shared
  | .call step =>
    if step.op.announces || locks shared.pending (writes nameSpace shared.db step) then none
    else some { shared with db := (call nameSpace shared.db step).2 }
  | .mark ending now =>
    match ending.event with
    | none => none
    | some (eventType, detail) =>
      if locks shared.pending [ending.jobId] then none
      else match shared.db.jobs.rows.find? fun document => openRow ending.jobId document.job with
        | none => some shared
        | some document => some { shared with pending := shared.pending ++ [{
            nameSpace, ending, eventType, detail, now, row := document.job.finish ending now }] }
  | .nextEvent index =>
    if shared.pending.any fun transaction => transaction.inserted.isSome then none
    else shared.pending[index]?.map fun transaction => { shared with
      pending := shared.pending.set index (transaction.numbered (shared.db.eventseq + 1)) }
  | .commit index =>
    shared.pending[index]?.bind fun transaction => transaction.inserted.map fun event => {
      db := { updateJobs (openRow transaction.ending.jobId)
          (Job.finish transaction.ending transaction.now)
          (Job.id_finish transaction.ending transaction.now) shared.db with
        eventseq := event.seq
        events := shared.db.events ++ [event] }
      pending := shared.pending.eraseIdx index }
  | .abort index => shared.pending[index]?.map fun _ =>
      { shared with pending := shared.pending.eraseIdx index }

/-- `find({"seq": {"$gt": since}}).sort("seq", ASCENDING).limit(limit)`. -/
def find (db : Db) (since limit : Nat) : List Event :=
  let found := (db.events.filter fun event => since < event.seq).insertionSort
    fun first second => first.seq ≤ second.seq
  (if limit = 0 then found else found.take limit).map fun event => { event with nameSpace }

def feed : Feed Shared Operation where
  move := move nameSpace
  committed shared := shared.db.events
  events shared := find nameSpace shared.db

end Feed

/-- At most one transaction has the counter, with the number after the last. -/
structure Counted (nameSpace : String) (shared : Shared) : Prop where
  single : (shared.pending.filterMap Pending.inserted).length ≤ 1
  next : ∀ event ∈ shared.pending.filterMap Pending.inserted,
    event.seq = shared.db.eventseq + 1 ∧ event.nameSpace = nameSpace
  named : ∀ event ∈ shared.db.events, event.nameSpace = nameSpace
  opened : ∀ transaction ∈ shared.pending, transaction.nameSpace = nameSpace

section Numbers

variable {nameSpace : String} {shared after : Shared} {index : Nat}

/-- What is left of the transactions has no more than there was. -/
theorem Counted.erase (counted : Counted nameSpace shared) (index : Nat) :
    Counted nameSpace { shared with pending := shared.pending.eraseIdx index } where
  single := ((List.eraseIdx_sublist _ _).filterMap _).length_le.trans counted.single
  next event listed :=
    counted.next event (((List.eraseIdx_sublist _ _).filterMap _).subset listed)
  named := counted.named
  opened transaction listed := counted.opened transaction (List.mem_of_mem_eraseIdx listed)

theorem insertOne_frame {seq : Nat} {queue jobId : String} {payload : Dict} {priority now : Int}
    {db : Db} :
    (insertOne nameSpace seq queue payload jobId priority now db).2.events = db.events ∧
      (insertOne nameSpace seq queue payload jobId priority now db).2.eventseq = db.eventseq := by
  unfold insertOne
  split
  · exact ⟨rfl, rfl⟩
  · split <;> exact ⟨rfl, rfl⟩

theorem eventseq_reclaims (queue : Option String) (cutoff now : Int) (ids : List String)
    (db : Db) :
    (ids.foldl (fun db id => reclaimNext queue cutoff id now db) db).eventseq = db.eventseq := by
  induction ids generalizing db with
  | nil => rfl
  | cons id ids ih => exact (ih _).trans rfl

theorem call_frame {step : Step} {db : Db} (plain : step.op.announces = false) :
    (call nameSpace db step).2.events = db.events ∧
      (call nameSpace db step).2.eventseq = db.eventseq := by
  cases step with
  | nextSeq queue payload given priority uuid => exact ⟨rfl, rfl⟩
  | insertOne seq queue payload given priority uuid now => exact insertOne_frame
  | reclaimNext queue cutoff jobId now => exact ⟨rfl, rfl⟩
  | whole op now =>
    cases op with
    | enqueue queue payload given priority uuid => exact insertOne_frame
    | claim queue worker leaseS =>
      dsimp only [call, claim]
      split <;> exact ⟨rfl, rfl⟩
    | renewLease jobId worker leaseS => exact ⟨rfl, rfl⟩
    | reclaimExpired queue => exact ⟨events_reclaims .., eventseq_reclaims ..⟩
    | requeueForRetry jobId => exact ⟨rfl, rfl⟩
    | terminal ending =>
      change ending.event.isSome = false at plain
      rw [Option.isSome_eq_false_iff, Option.isNone_iff_eq_none] at plain
      dsimp only [call, terminal]
      rw [plain]
      split <;> exact ⟨rfl, rfl⟩

/-- What an operation does to the numbers and the events. -/
def Turns (shared after : Shared) : Prop :=
  Turn Event.seq shared.db.eventseq [] shared.db.events after.db.eventseq [] after.db.events

theorem counted_mark {ending : Ending} {now : Int} (counted : Counted nameSpace shared)
    (moved : move nameSpace shared (.mark ending now) = some after) :
    Counted nameSpace after ∧ Turns shared after := by
  unfold move at moved
  dsimp only at moved
  cases said : ending.event with
  | none =>
    rw [said] at moved
    cases moved
  | some event =>
    rw [said] at moved
    dsimp only at moved
    cases locked : locks shared.pending [ending.jobId] with
    | true => simp [locked] at moved
    | false =>
      simp only [locked, Bool.false_eq_true, if_false] at moved
      cases found : shared.db.jobs.rows.find? fun document =>
          openRow ending.jobId document.job with
      | none =>
        rw [found] at moved
        obtain rfl := Option.some.inj moved
        exact ⟨counted, .lose le_rfl (.refl _)⟩
      | some document =>
        rw [found] at moved
        obtain rfl := Option.some.inj moved
        refine ⟨⟨?_, ?_, counted.named, ?_⟩, .lose le_rfl (.refl _)⟩
        · simpa [List.filterMap_append] using counted.single
        · simpa [List.filterMap_append] using counted.next
        · intro transaction listed
          rcases List.mem_append.mp listed with old | new
          · exact counted.opened transaction old
          · rw [List.mem_singleton.mp new]

theorem counted_nextEvent (counted : Counted nameSpace shared)
    (moved : move nameSpace shared (.nextEvent index) = some after) :
    Counted nameSpace after ∧ Turns shared after := by
  unfold move at moved
  dsimp only at moved
  split at moved
  · cases moved
  · rename_i free
    obtain ⟨transaction, found, rfl⟩ := Option.map_eq_some_iff.mp moved
    have none : (shared.pending.eraseIdx index).filterMap Pending.inserted = [] := by
      rw [List.filterMap_eq_nil_iff]
      intro other listed
      by_contra taken
      apply free
      rw [List.any_eq_true]
      exact ⟨other, List.mem_of_mem_eraseIdx listed, Option.isSome_iff_ne_none.mpr taken⟩
    have only : ((shared.pending.set index (transaction.numbered (shared.db.eventseq + 1))).filterMap
        Pending.inserted).Perm _ := filterMap_set found _
    rw [none] at only
    have mine := counted.opened transaction (List.mem_of_getElem? found)
    refine ⟨⟨?_, ?_, counted.named, ?_⟩, .lose le_rfl (.refl _)⟩
    · exact only.length_eq.le
    · intro event listed
      obtain rfl := List.mem_singleton.mp (only.mem_iff.mp listed)
      exact ⟨rfl, mine⟩
    · intro other listed
      rcases List.mem_or_eq_of_mem_set listed with old | rfl
      · exact counted.opened other old
      · exact mine

theorem counted_commit (counted : Counted nameSpace shared)
    (moved : move nameSpace shared (.commit index) = some after) :
    Counted nameSpace after ∧ Turns shared after := by
  obtain ⟨transaction, found, moved⟩ := Option.bind_eq_some_iff.mp moved
  obtain ⟨event, inserted, rfl⟩ := Option.map_eq_some_iff.mp moved
  have apart : (shared.pending.filterMap Pending.inserted).Perm _ := filterMap_eraseIdx found
  rw [inserted, Option.toList_some, List.singleton_append] at apart
  obtain ⟨numbered, named⟩ := counted.next event (apart.mem_iff.mpr (.head _))
  have none : (shared.pending.eraseIdx index).filterMap Pending.inserted = [] := by
    have single := counted.single
    rw [apart.length_eq, List.length_cons] at single
    exact List.length_eq_zero_iff.mp (by omega)
  have erased := counted.erase index
  refine ⟨⟨erased.single, ?_, ?_, erased.opened⟩, ?_⟩
  · rw [none]
    exact nofun
  · intro other listed
    rcases List.mem_append.mp listed with old | new
    · exact counted.named other old
    · rw [List.mem_singleton.mp new, named]
  · show Turn Event.seq shared.db.eventseq [] shared.db.events event.seq [] _
    rw [numbered]
    exact .append numbered

theorem numbered_feed (nameSpace : String) : (feed nameSpace).Numbered (Counted nameSpace)
    (fun shared => shared.db.eventseq) fun _ => [] where
  pages shared since counted := by
    have same : ∀ event ∈ (unread Event.seq since shared.db.events).take pageLimit,
        { event with nameSpace } = event := by
      intro event listed
      have stored := (Sequenced.mem_unread.mp (List.mem_of_mem_take listed)).1
      rw [← counted.named event stored]
    exact (List.map_congr_left same).trans (List.map_id _)
  turns shared label after counted moved := by
    show Counted nameSpace after ∧ Turns shared after
    cases label with
    | call step =>
      simp only [feed, move] at moved
      split at moved
      · cases moved
      · rename_i free
        cases moved
        simp only [Bool.or_eq_true, not_or, Bool.not_eq_true] at free
        obtain ⟨events, seq⟩ := @call_frame nameSpace step shared.db free.1
        refine ⟨⟨counted.single, ?_, ?_, counted.opened⟩, ?_⟩
        · dsimp only
          rw [seq]
          exact counted.next
        · dsimp only
          rw [events]
          exact counted.named
        · unfold Turns
          dsimp only
          rw [events, seq]
          exact .lose le_rfl (.refl _)
    | mark ending now => exact counted_mark counted moved
    | nextEvent index => exact counted_nextEvent counted moved
    | commit index => exact counted_commit counted moved
    | abort index =>
      obtain ⟨transaction, found, rfl⟩ := Option.map_eq_some_iff.mp moved
      exact ⟨counted.erase index, .lose le_rfl (.refl _)⟩

end Numbers

end Mongo

namespace Redis

/-- Each script is one step, with its event if it has one. -/
def feed (tostring : Int → Int) (nameSpace : String) : Feed Server Step where
  move server step := some (call tostring nameSpace server step).2
  committed server := server.events (keysOf nameSpace ++ "events")
  events server := events (keysOf nameSpace) nameSpace server

/-- The list of events is in the order of their numbers, none above the counter. -/
structure Ordered (nameSpace : String) (server : Server) : Prop where
  counter : 0 ≤ server.counters (keysOf nameSpace ++ "eventseq")
  sorted : (server.events (keysOf nameSpace ++ "events")).Pairwise fun first second =>
    first.seq < second.seq
  within : ∀ event ∈ server.events (keysOf nameSpace ++ "events"),
    event.seq ≤ (server.counters (keysOf nameSpace ++ "eventseq")).toNat ∧
      event.nameSpace = nameSpace

/-- Neither the events nor their counter are touched. -/
def Quiet (keys : String) (server after : Server) : Prop :=
  after.events (keys ++ "events") = server.events (keys ++ "events") ∧
    after.counters (keys ++ "eventseq") = server.counters (keys ++ "eventseq")

section Quiet

variable {keys : String} {server middle after : Server}

theorem Quiet.refl : Quiet keys server server := ⟨rfl, rfl⟩

theorem Quiet.trans (first : Quiet keys server middle) (second : Quiet keys middle after) :
    Quiet keys server after :=
  ⟨second.1.trans first.1, second.2.trans first.2⟩

theorem Quiet.fold {ι : Type} {turn : List String × Server → ι → List String × Server}
    (once : ∀ found item, Quiet keys found.2 (turn found item).2) (items : List ι)
    (found : List String × Server) : Quiet keys found.2 (items.foldl turn found).2 := by
  induction items generalizing found with
  | nil => exact .refl
  | cons item items ih => exact (once found item).trans (ih _)

theorem quiet_seq : Quiet keys server (server.incr (keys ++ "seq")).2 :=
  ⟨rfl, Function.update_of_ne (by simp) ..⟩

theorem quiet_incr {queue : String} {status : Status} :
    Quiet keys server (server.incr (countKey keys queue status)).2 :=
  ⟨rfl, Function.update_of_ne (countKey_ne (by decide)).symm ..⟩

theorem quiet_decr {queue : String} {status : Status} :
    Quiet keys server (server.decr (countKey keys queue status)) :=
  ⟨rfl, Function.update_of_ne (countKey_ne (by decide)).symm ..⟩

/-- Scripts write hashes and sets besides. -/
theorem Quiet.beside {aside : Server} (quiet : Quiet keys server after)
    (events : aside.events = after.events) (counters : aside.counters = after.counters) :
    Quiet keys server aside :=
  ⟨(congrFun events _).trans quiet.1, (congrFun counters _).trans quiet.2⟩

theorem quiet_enqueue {nameSpace queue jobId : String} {payload : Dict} {priority now : Int} :
    Quiet keys server (luaEnqueue keys nameSpace queue payload jobId priority now server) :=
  (quiet_seq.beside rfl rfl).trans quiet_incr

theorem quiet_claim {tostring : Int → Int} {queue worker : String} {leaseS now : Int} :
    Quiet keys server (luaClaim keys tostring queue worker leaseS now server).2 := by
  unfold luaClaim
  cases popMin (queueKey keys queue) server.members with
  | none => exact .refl
  | some popped => exact ((Quiet.refl.beside rfl rfl).trans quiet_decr).trans quiet_incr

theorem quiet_renew {tostring : Int → Int} {jobId worker : String} {leaseS now : Int} :
    Quiet keys server (luaRenew keys tostring jobId worker leaseS now server).2 := by
  unfold luaRenew
  cases server.hashes (jobKey keys jobId) with
  | none => exact .refl
  | some hash =>
    dsimp only
    split
    · exact Quiet.refl.beside rfl rfl
    · exact .refl

theorem quiet_requeue {jobId : String} {now : Int} :
    Quiet keys server (luaRequeue keys jobId now server).2 := by
  unfold luaRequeue
  cases server.hashes (jobKey keys jobId) with
  | none => exact .refl
  | some hash =>
    dsimp only
    split
    · exact .refl
    · exact (((Quiet.refl.beside rfl rfl).trans quiet_seq).beside rfl rfl |>.trans
        quiet_decr).trans quiet_incr

theorem quiet_reclaimOne {queue jobId : String} {now : Int} {found : List String × Server} :
    Quiet keys found.2 (reclaimOne keys queue now found jobId).2 := by
  unfold reclaimOne
  cases found.2.hashes (jobKey keys jobId) with
  | none => exact .refl
  | some hash =>
    dsimp only
    split
    · exact (((Quiet.refl.beside rfl rfl).trans quiet_seq).beside rfl rfl |>.trans
        quiet_decr).trans quiet_incr
    · exact .refl

theorem quiet_reclaim {queue : Option String} {now : Int} :
    Quiet keys server (reclaimExpired keys queue now server).2 :=
  Quiet.fold (fun _ _ => Quiet.fold (fun _ _ => quiet_reclaimOne) _ _) _ ([], server)

end Quiet

section Numbers

variable {tostring : Int → Int} {nameSpace : String} {server after : Server}

def issued (nameSpace : String) (server : Server) : Nat :=
  (server.counters (keysOf nameSpace ++ "eventseq")).toNat

/-- What a script does to the numbers and the events. -/
def Turns (nameSpace : String) (server after : Server) : Prop :=
  Turn Event.seq (issued nameSpace server) [] (server.events (keysOf nameSpace ++ "events"))
    (issued nameSpace after) [] (after.events (keysOf nameSpace ++ "events"))

theorem Ordered.quiet (ordered : Ordered nameSpace server)
    (quiet : Quiet (keysOf nameSpace) server after) :
    Ordered nameSpace after ∧ Turns nameSpace server after := by
  obtain ⟨events, counter⟩ := quiet
  refine ⟨⟨?_, ?_, ?_⟩, ?_⟩
  · rw [counter]
    exact ordered.counter
  · rw [events]
    exact ordered.sorted
  · rw [events, counter]
    exact ordered.within
  · rw [Turns, issued, issued, events, counter]
    exact .lose le_rfl (.refl _)

theorem Ordered.append {event : Event} (ordered : Ordered nameSpace server)
    (counter : after.counters (keysOf nameSpace ++ "eventseq") =
      server.counters (keysOf nameSpace ++ "eventseq") + 1)
    (events : after.events (keysOf nameSpace ++ "events") =
      server.events (keysOf nameSpace ++ "events") ++ [event])
    (numbered : event.seq = (server.counters (keysOf nameSpace ++ "eventseq") + 1).toNat)
    (named : event.nameSpace = nameSpace) :
    Ordered nameSpace after ∧ Turns nameSpace server after := by
  have grown : issued nameSpace after = issued nameSpace server + 1 := by
    rw [issued, issued, counter, Int.toNat_add ordered.counter (by decide)]
    rfl
  have next : event.seq = issued nameSpace server + 1 := by
    rw [numbered, ← counter]
    exact grown
  refine ⟨⟨?_, ?_, ?_⟩, ?_⟩
  · rw [counter]
    exact Int.add_nonneg ordered.counter (by decide)
  · rw [events, List.pairwise_append]
    refine ⟨ordered.sorted, List.pairwise_singleton .., fun old listed new added => ?_⟩
    rw [List.mem_singleton.mp added, next]
    exact Nat.lt_succ_of_le (ordered.within old listed).1
  · intro other listed
    rw [events] at listed
    show other.seq ≤ issued nameSpace after ∧ _
    rw [grown]
    rcases List.mem_append.mp listed with old | new
    · obtain ⟨low, mine⟩ := ordered.within other old
      exact ⟨low.trans (Nat.le_succ _), mine⟩
    · rw [List.mem_singleton.mp new]
      exact ⟨next.le, named⟩
  · rw [Turns, events, grown]
    exact .append next

theorem Turns.of_quiet {middle : Server} (turns : Turns nameSpace middle after)
    (quiet : Quiet (keysOf nameSpace) server middle) : Turns nameSpace server after := by
  rw [Turns, issued, quiet.1, quiet.2] at turns
  exact turns

theorem Ordered.appendEvent {ending : Ending} {queue : String} {now : Int}
    (ordered : Ordered nameSpace server) :
    Ordered nameSpace
        (appendEvent (keysOf nameSpace) nameSpace ending queue now server) ∧
      Turns nameSpace server
        (appendEvent (keysOf nameSpace) nameSpace ending queue now server) := by
  unfold Redis.appendEvent
  cases ending.event with
  | none => exact ordered.quiet .refl
  | some event =>
    obtain ⟨eventType, detail⟩ := event
    dsimp only
    split
    · exact ordered.quiet .refl
    · exact ordered.append (Function.update_self ..) (Function.update_self ..) rfl rfl

/-- The event of a script is appended after all else that it writes. -/
theorem Ordered.announce {ending : Ending} {queue : String} {now : Int} {middle : Server}
    (ordered : Ordered nameSpace server) (quiet : Quiet (keysOf nameSpace) server middle) :
    Ordered nameSpace
        (Redis.appendEvent (keysOf nameSpace) nameSpace ending queue now middle) ∧
      Turns nameSpace server
        (Redis.appendEvent (keysOf nameSpace) nameSpace ending queue now middle) := by
  obtain ⟨still, turns⟩ := (ordered.quiet quiet).1.appendEvent
  exact ⟨still, turns.of_quiet quiet⟩

theorem Ordered.terminal {ending : Ending} {now : Int} (ordered : Ordered nameSpace server) :
    Ordered nameSpace (luaTerminal (keysOf nameSpace) nameSpace ending now server).2 ∧
      Turns nameSpace server
        (luaTerminal (keysOf nameSpace) nameSpace ending now server).2 := by
  unfold luaTerminal
  cases server.hashes (jobKey (keysOf nameSpace) ending.jobId) with
  | none => exact ordered.quiet .refl
  | some hash =>
    dsimp only
    split
    · exact ordered.quiet .refl
    · exact ordered.announce
        (((Quiet.refl.beside rfl rfl).trans quiet_decr).trans quiet_incr)

theorem numbered_feed (tostring : Int → Int) (nameSpace : String) :
    (feed tostring nameSpace).Numbered (Ordered nameSpace) (issued nameSpace) fun _ => [] where
  pages server since ordered := by
    have log : unread Event.seq since (server.events (keysOf nameSpace ++ "events")) = _ :=
      Sequenced.unread_of_sorted ordered.sorted
    have same : ∀ event ∈ (unread Event.seq since
        (server.events (keysOf nameSpace ++ "events"))).take pageLimit,
        { event with nameSpace } = event := by
      intro event listed
      have stored := (Sequenced.mem_unread.mp (List.mem_of_mem_take listed)).1
      rw [← (ordered.within event stored).2]
    show List.map _ (List.take pageLimit _) = _
    rw [← log]
    exact (List.map_congr_left same).trans (List.map_id _)
  turns server step after ordered moved := by
    obtain rfl := Option.some.inj moved
    show Ordered nameSpace (call tostring nameSpace server step).2 ∧ Turns nameSpace server _
    unfold call
    dsimp only
    cases step.op with
    | enqueue queue payload given priority uuid => exact ordered.quiet quiet_enqueue
    | claim queue worker leaseS => exact ordered.quiet quiet_claim
    | renewLease jobId worker leaseS => exact ordered.quiet quiet_renew
    | reclaimExpired queue => exact ordered.quiet quiet_reclaim
    | requeueForRetry jobId => exact ordered.quiet quiet_requeue
    | terminal ending => exact ordered.terminal

end Numbers

end Redis

/-- A reader of the outbox misses no event: in MongoDB and in Redis in every run, in
Postgres where no poll goes past an event that is inserted and not committed. -/
theorem outbox_reader_complete (tostring : Int → Int) (nameSpace : String) :
    (∀ db : Postgres.Db, (Postgres.feed nameSpace).committed { db } = [] →
        (Postgres.feed nameSpace).Complete (Postgres.passesNone nameSpace) { db }) ∧
      (∀ db : Mongo.Db, db.events = [] →
        (Mongo.feed nameSpace).Complete (fun _ _ => true) { db }) ∧
      ∀ server : Redis.Server, server.events (Redis.keysOf nameSpace ++ "events") = [] →
        0 ≤ server.counters (Redis.keysOf nameSpace ++ "eventseq") →
        (Redis.feed tostring nameSpace).Complete (fun _ _ => true) server := by
  refine ⟨fun db silent => ?_, fun db silent => ?_, fun server silent counter => ?_⟩
  · refine Feed.complete_of_numbered (Postgres.numbered_feed nameSpace) trivial silent rfl ?_
    intro watched allowed number flying event listed
    have passed := List.all_eq_true.mp allowed number flying
    exact of_decide_eq_true (List.all_eq_true.mp passed event listed)
  · refine Feed.complete_of_numbered (Mongo.numbered_feed nameSpace) ?_ silent rfl
      fun _ _ _ flying => absurd flying List.not_mem_nil
    refine ⟨Nat.zero_le 1, fun event listed => absurd listed List.not_mem_nil,
      fun event listed => ?_, fun transaction listed => absurd listed List.not_mem_nil⟩
    rw [silent] at listed
    cases listed
  · refine Feed.complete_of_numbered (Redis.numbered_feed tostring nameSpace) ?_ silent rfl
      fun _ _ _ flying => absurd flying List.not_mem_nil
    refine ⟨counter, ?_, ?_⟩
    · rw [silent]
      exact .nil
    · rw [silent]
      exact nofun

namespace Sample

def runningJob (id : String) : Job where
  id := id
  queue := "q"
  nameSpace := ""
  status := .running
  payload := []
  priority := 0
  attempts := 1
  claimedBy := some "w"
  leaseExpiresAt := some 30
  result := none
  error := none
  createdAt := 0
  updatedAt := 0

def twoRunning : Postgres.Db := { jobs := ⟨[runningJob "a", runningJob "b"], by decide⟩ }

/-- Both jobs end, each in a transaction that has inserted its event. -/
def bothInserted : List (Watch Postgres.Statement) :=
  [.act (.mark ""
      { jobId := "a", status := .completed, event := some ("completed", none),
        terminal := Eq.refl true } 1),
    .act (.mark ""
      { jobId := "b", status := .completed, event := some ("completed", none),
        terminal := Eq.refl true } 2),
    .act (.insert 0), .act (.insert 1)]

/-- The first of them commits first. -/
def inOrder : List (Watch Postgres.Statement) :=
  bothInserted ++ [.act (.commit 0), .poll, .act (.commit 0), .poll]

/-- The second commits first, and the reader polls before the first commits. -/
def passed : List (Watch Postgres.Statement) :=
  bothInserted ++ [.act (.commit 1), .poll, .act (.commit 0), .poll]

def tailed (ok : Watched Postgres.Shared → Watch Postgres.Statement → Bool)
    (labels : List (Watch Postgres.Statement)) : Watched Postgres.Shared :=
  (follow (Postgres.feed "").step ok { store := { db := twoRunning } } labels).getD
    { store := { db := twoRunning } }

end Sample

theorem inOrder_received : ∃ watched : Watched Postgres.Shared,
    ((Postgres.feed "").committed watched.store).map Event.seq = [1, 2] ∧
      ∀ event ∈ (Postgres.feed "").committed watched.store, event ∈ watched.reader.received := by
  have reached : Reach (Postgres.feed "").step (Postgres.passesNone "")
      { store := { db := Sample.twoRunning } }
      (Sample.tailed (Postgres.passesNone "") Sample.inOrder) :=
    Reach.follow_getD Sample.inOrder (by decide +kernel)
  refine ⟨Sample.tailed (Postgres.passesNone "") Sample.inOrder, by decide +kernel, ?_⟩
  have complete := (outbox_reader_complete id "").1 Sample.twoRunning rfl
  exact complete _ reached (by decide +kernel)

/-- The event with the lower number is committed after the poll that returned the higher
one: no later poll asks for it. -/
theorem passed_event_missed :
    ¬ (Postgres.feed "").Complete (fun _ _ => true) { db := Sample.twoRunning } := by
  intro complete
  have reached : Reach (Postgres.feed "").step (fun _ _ => true)
      { store := { db := Sample.twoRunning } }
      (Sample.tailed (fun _ _ => true) Sample.passed) :=
    Reach.follow_getD Sample.passed (by decide +kernel)
  have received := complete _ reached (by decide +kernel)
  have missed : ∃ event ∈ (Postgres.feed "").committed
      (Sample.tailed (fun _ _ => true) Sample.passed).store, event.seq = 1 := by decide +kernel
  obtain ⟨event, committed, first⟩ := missed
  have listed := List.mem_map_of_mem (f := Event.seq) (received event committed)
  rw [first] at listed
  revert listed
  decide +kernel

end QueueWorkflows.Backend
