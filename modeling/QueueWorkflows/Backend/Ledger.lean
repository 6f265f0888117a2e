import Mathlib.Data.Prod.Lex
import Mathlib.Data.String.Basic
import QueueWorkflows.Base.Ranked
import QueueWorkflows.Backend.RowStores

/-! What a store of one namespace is an implementation of: the jobs by their ids, and
the calls as changes of single jobs. A claim takes the first queued job of its queue. -/

namespace QueueWorkflows.Backend

structure Ledger where
  find : String → Option Job
  keyed : ∀ {jobId row}, find jobId = some row → row.id = jobId

namespace Ledger

variable {ledger : Ledger} {queue jobId : String} {row other : Job}

@[ext] theorem ext {first second : Ledger} (same : ∀ jobId, first.find jobId = second.find jobId) :
    first = second := by
  cases first
  cases second
  congr
  exact funext same

def empty : Ledger := ⟨fun _ => none, by simp⟩

/-- Change the jobs that are selected. -/
def update (selects : Job → Bool) (change : Job → Job) (keeps : ∀ row, (change row).id = row.id)
    (ledger : Ledger) : Ledger where
  find jobId := (ledger.find jobId).map fun row => if selects row then change row else row
  keyed := by
    intro jobId row found
    obtain ⟨before, stored, rfl⟩ := Option.map_eq_some_iff.mp found
    rw [← ledger.keyed stored]
    split
    · exact keeps before
    · rfl

def add (row : Job) (ledger : Ledger) : Ledger where
  find := Function.update ledger.find row.id (some row)
  keyed := by
    intro jobId other found
    by_cases own : jobId = row.id
    · subst own
      rw [Function.update_self, Option.some.injEq] at found
      rw [found]
    · rw [Function.update_of_ne own] at found
      exact ledger.keyed found

@[simp] theorem find_update (selects : Job → Bool) (change : Job → Job)
    (keeps : ∀ row, (change row).id = row.id) : (ledger.update selects change keeps).find jobId =
      (ledger.find jobId).map fun row => if selects row then change row else row := rfl

/-- Only what is selected among the stored jobs matters. -/
theorem update_congr {selects chosen : Job → Bool} {change : Job → Job}
    {keeps : ∀ row, (change row).id = row.id}
    (same : ∀ jobId row, ledger.find jobId = some row → selects row = chosen row) :
    ledger.update selects change keeps = ledger.update chosen change keeps := by
  ext1 jobId
  rw [find_update, find_update]
  cases found : ledger.find jobId with
  | none => rfl
  | some row => simp [same jobId row found]

theorem update_idle {selects : Job → Bool} {change : Job → Job}
    {keeps : ∀ row, (change row).id = row.id}
    (idle : ∀ jobId row, ledger.find jobId = some row → ¬ selects row = true) :
    ledger.update selects change keeps = ledger := by
  ext1 jobId
  rw [find_update]
  cases found : ledger.find jobId with
  | none => rfl
  | some row => simp [idle jobId row found]

/-- A queued job of the queue that no other goes before. -/
structure Next (ledger : Ledger) (queue : String) (row : Job) : Prop where
  stored : ledger.find row.id = some row
  mine : row.queue = queue
  queued : row.status = .queued
  first : ∀ other, ledger.find other.id = some other → other.queue = queue →
    other.status = .queued → Postgres.claimsBefore row other

theorem Next.unique (first : ledger.Next queue row) (second : ledger.Next queue other) :
    row = other := by
  have forth := first.first other second.stored second.mine second.queued
  have back := second.first row first.stored first.mine first.queued
  have same : row.id = other.id := by
    unfold Postgres.claimsBefore at forth back
    rcases forth with low | ⟨level, early | ⟨together, least⟩⟩ <;>
      rcases back with low' | ⟨level', early' | ⟨together', least'⟩⟩ <;> try omega
    exact le_antisymm least least'
  have stored := second.stored
  rw [← same, first.stored] at stored
  exact Option.some.inj stored

open Classical in
noncomputable def next (ledger : Ledger) (queue : String) : Option Job :=
  if found : ∃ row, ledger.Next queue row then some found.choose else none

theorem next_eq (found : ledger.Next queue row) : ledger.next queue = some row := by
  have there : ∃ row, ledger.Next queue row := ⟨row, found⟩
  rw [next, dif_pos there, there.choose_spec.unique found]

theorem next_none (none : ∀ row, ¬ ledger.Next queue row) : ledger.next queue = Option.none := by
  rw [next, dif_neg]
  rintro ⟨row, found⟩
  exact none row found

/-- The row an enqueue adds. -/
def newRow (nameSpace queue : String) (payload : Dict) (jobId : String) (priority now : Int) :
    Job where
  id := jobId
  queue := queue
  nameSpace := nameSpace
  status := .queued
  payload := payload
  priority := priority
  attempts := 0
  claimedBy := none
  leaseExpiresAt := none
  result := none
  error := none
  createdAt := now
  updatedAt := now

/-- A call on the ledger, with the id of the job that a claim takes. -/
noncomputable def call (nameSpace : String) (ledger : Ledger) (op : Op) (now : Int) :
    Option String × Ledger :=
  match op with
  | .enqueue queue payload given priority uuid =>
    match ledger.find (newId given uuid) with
    | some _ => (none, ledger)
    | none => (none, ledger.add (newRow nameSpace queue payload (newId given uuid) priority now))
  | .claim queue worker leaseS =>
    match ledger.next queue with
    | none => (none, ledger)
    | some row => (some row.id, ledger.update (·.id == row.id) (Job.start worker leaseS now)
        (Job.id_start worker leaseS now))
  | .renewLease jobId worker leaseS =>
    (none, ledger.update (Mongo.renews jobId worker) (Job.extend leaseS now)
      (Job.id_extend leaseS now))
  | .reclaimExpired queue =>
    (none, ledger.update (Job.lapsed queue now) (Job.release now) (Job.id_release now))
  | .requeueForRetry jobId =>
    (none, ledger.update (Mongo.openRow jobId) (Job.release now) (Job.id_release now))
  | .terminal ending =>
    (none, ledger.update (Mongo.openRow ending.jobId) (Job.finish ending now)
      (Job.id_finish ending now))

end Ledger

/-- The id of the job that a claim returns. -/
def taken (op : Op) (reply : Reply) : Option String :=
  match op, reply with
  | .claim .., .job row => row.map Job.id
  | _, _ => none

/-- A priority is stored in an integer of a fixed width. -/
def Op.fits (bound : Int) : Op → Bool
  | .enqueue _ _ _ priority _ => -bound ≤ priority ∧ priority < bound
  | _ => true

namespace Postgres

/-- The claim order is that of a key. -/
def turn (row : Job) : Int ×ₗ Int ×ₗ String := toLex (-row.priority, toLex (row.createdAt, row.id))

theorem claimsBefore_iff {first second : Job} :
    claimsBefore first second ↔ turn first ≤ turn second := by
  simp only [claimsBefore, turn, Prod.Lex.toLex_le_toLex, Int.neg_lt_neg_iff, Int.neg_inj]

instance : Std.Total claimsBefore := ⟨fun first second => by
  simpa only [claimsBefore_iff] using le_total (turn first) (turn second)⟩

instance : IsTrans Job claimsBefore := ⟨fun _ _ _ earlier later =>
  claimsBefore_iff.mpr ((claimsBefore_iff.mp earlier).trans (claimsBefore_iff.mp later))⟩

variable {nameSpace : String} {db : Db}

def ledger (db : Db) : Ledger where
  find jobId := db.jobs.rows.find? fun row => row.id = jobId
  keyed found := by simpa using List.find?_some found

theorem find_ledger {row : Job} : (ledger db).find row.id = some row ↔ row ∈ db.jobs.rows :=
  ⟨List.mem_of_find?_eq_some, Relational.Table.find?_of_mem⟩

theorem mem_of_find {jobId : String} {row : Job} (found : (ledger db).find jobId = some row) :
    row ∈ db.jobs.rows :=
  List.mem_of_find?_eq_some found

/-- Every row is of the one namespace. -/
def Home (nameSpace : String) (db : Db) : Prop :=
  ∀ row ∈ db.jobs.rows, row.nameSpace = nameSpace

/-- An `UPDATE` of rows is one of the ledger, whatever the clause on the namespace. -/
theorem ledger_update (home : Home nameSpace db) {after : Db} {selects chosen : Job → Bool}
    {change : Job → Job} {keeps : ∀ row, (change row).id = row.id} (id : Option String)
    (jobs : after.jobs = db.jobs.update selects change keeps)
    (stays : ∀ row, (change row).nameSpace = row.nameSpace)
    (same : ∀ row, row.nameSpace = nameSpace → selects row = chosen row) :
    (id, ledger after) = (id, (ledger db).update chosen change keeps) ∧ Home nameSpace after := by
  constructor
  · have changed : ledger after = (ledger db).update selects change keeps := by
      ext1 jobId
      show after.jobs.rows.find? _ = _
      rw [jobs, Relational.Table.find?_update]
      rfl
    rw [changed, Ledger.update_congr fun id row found => same row (home row (mem_of_find found))]
  · intro row present
    rw [jobs, Relational.Table.rows_update] at present
    obtain ⟨before, member, rfl⟩ := List.mem_map.mp present
    split
    · rw [stays, home before member]
    · exact home before member

theorem next_of_claim (home : Home nameSpace db) {queue : String} {row : Job}
    (first : ((db.jobs.rows.filter (claimable nameSpace queue [])).insertionSort
      claimsBefore).head? = some row) : (ledger db).Next queue row := by
  obtain ⟨listed, least⟩ := Ranked.first_of_sorted first
  obtain ⟨present, able⟩ := List.mem_filter.mp listed
  simp only [claimable, List.contains_nil, Bool.not_false, Bool.and_true, Bool.and_eq_true,
    beq_iff_eq] at able
  refine ⟨find_ledger.mpr present, able.1.2, able.2, fun other stored mine queued => ?_⟩
  have there := find_ledger.mp stored
  exact least other (List.mem_filter.mpr ⟨there, by simp [claimable, home other there, mine, queued]⟩)

theorem next_none_of_claim (home : Home nameSpace db) {queue : String}
    (none : ((db.jobs.rows.filter (claimable nameSpace queue [])).insertionSort
      claimsBefore).head? = Option.none) : (ledger db).next queue = Option.none := by
  apply Ledger.next_none
  intro row next
  have present := find_ledger.mp next.stored
  have listed : row ∈ db.jobs.rows.filter (claimable nameSpace queue []) :=
    List.mem_filter.mpr ⟨present, by simp [claimable, home row present, next.mine, next.queued]⟩
  rw [List.head?_eq_none_iff] at none
  rw [← List.mem_insertionSort claimsBefore, none] at listed
  cases listed

theorem ledger_insert {row : Job} {jobs : Relational.Table Job Job.id Eq}
    (inserted : db.jobs.insert? row = some jobs) :
    (ledger db).find row.id = none ∧ ledger { db with jobs } = (ledger db).add row := by
  refine ⟨Relational.Table.find?_of_insert? inserted, ?_⟩
  ext1 jobId
  refine (Relational.Table.find?_insert? inserted jobId).trans ?_
  by_cases own : row.id = jobId
  · subst own
    simp [Ledger.add]
  · simp [Ledger.add, own, Function.update_of_ne (Ne.symm own)]
    rfl

theorem refused {row : Job} (refused : db.jobs.insert? row = none) :
    ∃ other, (ledger db).find row.id = some other := by
  cases found : (ledger db).find row.id with
  | some other => exact ⟨other, rfl⟩
  | none =>
    have apart : ∀ other ∈ db.jobs.rows, ¬ other.id = row.id := fun other present same => by
      simpa [same] using List.find?_eq_none.mp found other present
    obtain ⟨jobs, inserted⟩ := Relational.Table.insert?_of_apart apart
    rw [refused] at inserted
    cases inserted

theorem enqueue_eq {queue jobId : String} {payload : Dict} {priority now : Int}
    (fits : -2 ^ 31 ≤ priority ∧ priority < 2 ^ 31) :
    enqueue nameSpace queue payload jobId priority now db =
      match db.jobs.insert? (Ledger.newRow nameSpace queue payload jobId priority now) with
      | some jobs => (.enqueued jobId, { db with jobs })
      | none => (.raised ⟨.integrityError,
          "duplicate key value violates unique constraint \"qw_jobs_pkey\""⟩, db) := by
  have wide : ¬ (priority < -2 ^ 31 ∨ 2 ^ 31 ≤ priority) := by omega
  simp only [enqueue, wide, if_false]
  rfl

/-- The terminal call changes the jobs as its `UPDATE` does, event or not. -/
theorem terminal_jobs {ending : Ending} {now : Int} :
    (terminal nameSpace ending now db).2.jobs = db.jobs ∧
        db.jobs.rows.find? (openRow nameSpace ending.jobId) = none ∨
      (terminal nameSpace ending now db).2.jobs = db.jobs.update (openRow nameSpace ending.jobId)
        (Job.finish ending now) (Job.id_finish ending now) := by
  unfold terminal markIn
  cases found : db.jobs.rows.find? (openRow nameSpace ending.jobId) with
  | none => exact .inl ⟨rfl, rfl⟩
  | some row =>
    right
    cases ending.event <;> rfl

/-- The reference store is the ledger. -/
theorem ledger_call (home : Home nameSpace db) (op : Op) (fits : op.fits (2 ^ 31) = true)
    (now : Int) :
    (taken op (call nameSpace db ⟨op, now, []⟩).1, ledger (call nameSpace db ⟨op, now, []⟩).2) =
        (ledger db).call nameSpace op now ∧
      Home nameSpace (call nameSpace db ⟨op, now, []⟩).2 := by
  cases op with
  | enqueue queue payload given priority uuid =>
    simp only [call, enqueue_eq (by simpa [Op.fits] using fits), Ledger.call, taken]
    cases inserted : db.jobs.insert? (Ledger.newRow nameSpace queue payload (newId given uuid)
        priority now) with
    | none =>
      obtain ⟨other, found⟩ := refused inserted
      rw [show (ledger db).find (newId given uuid) = some other from found]
      exact ⟨rfl, home⟩
    | some jobs =>
      obtain ⟨free, added⟩ := ledger_insert inserted
      rw [show (ledger db).find (newId given uuid) = none from free]
      refine ⟨Prod.ext rfl added, fun row present => ?_⟩
      rw [Relational.Table.rows_insert? inserted] at present
      rcases List.mem_append.mp present with old | new
      · exact home row old
      · rw [List.mem_singleton.mp new]
        rfl
  | claim queue worker leaseS =>
    simp only [call, claim, Ledger.call]
    cases first : ((db.jobs.rows.filter (claimable nameSpace queue [])).insertionSort
        claimsBefore).head? with
    | none =>
      rw [next_none_of_claim home first]
      exact ⟨rfl, home⟩
    | some row =>
      rw [Ledger.next_eq (next_of_claim home first)]
      exact ledger_update home (some row.id) rfl (fun _ => rfl) fun _ _ => rfl
  | renewLease jobId worker leaseS =>
    refine ledger_update home none rfl (fun _ => rfl) fun row own => ?_
    simp [renews, Mongo.renews, owns, own]
  | reclaimExpired queue =>
    refine ledger_update home none rfl (fun _ => rfl) fun row own => ?_
    simp [lapsed, own]
  | requeueForRetry jobId =>
    refine ledger_update home none rfl (fun _ => rfl) fun row own => ?_
    simp [openRow, Mongo.openRow, owns, own]
  | terminal ending =>
    have same : ∀ row : Job, row.nameSpace = nameSpace →
        openRow nameSpace ending.jobId row = Mongo.openRow ending.jobId row := by
      intro row own
      simp [openRow, Mongo.openRow, owns, own]
    rcases terminal_jobs with ⟨kept, absent⟩ | jobs
    · have idle : (ledger db).update (Mongo.openRow ending.jobId) (Job.finish ending now)
          (Job.id_finish ending now) = ledger db := by
        refine Ledger.update_idle fun jobId row found => ?_
        have present := mem_of_find found
        rw [← same row (home row present)]
        exact List.find?_eq_none.mp absent row present
      have still : ledger (terminal nameSpace ending now db).2 = ledger db := by
        ext1 jobId
        show (terminal nameSpace ending now db).2.jobs.rows.find? _ = _
        rw [kept]
        rfl
      refine ⟨Prod.ext rfl (still.trans idle.symm), fun row present => home row ?_⟩
      exact kept ▸ present
    · exact ledger_update home none jobs (fun _ => rfl) same

end Postgres

namespace Mongo

theorem claimsBefore_iff {first second : Document} : claimsBefore first second ↔
    toLex (-first.job.priority, first.seq) ≤ toLex (-second.job.priority, second.seq) := by
  simp only [claimsBefore, Prod.Lex.toLex_le_toLex, Int.neg_lt_neg_iff, Int.neg_inj]

instance : Std.Total claimsBefore := ⟨fun first second => by
  simpa only [claimsBefore_iff] using
    le_total (toLex (-first.job.priority, first.seq)) (toLex (-second.job.priority, second.seq))⟩

instance : IsTrans Document claimsBefore := ⟨fun _ _ _ earlier later =>
  claimsBefore_iff.mpr ((claimsBefore_iff.mp earlier).trans (claimsBefore_iff.mp later))⟩

variable {nameSpace : String} {db : Db} {clock now : Int}

def ledger (db : Db) : Ledger where
  find jobId := (db.jobs.rows.find? fun document => document.id = jobId).map Document.job
  keyed found := by
    obtain ⟨document, stored, rfl⟩ := Option.map_eq_some_iff.mp found
    have own := List.find?_some stored
    exact of_decide_eq_true own

theorem find_of_mem {document : Document} (present : document ∈ db.jobs.rows) :
    (ledger db).find document.job.id = some document.job := by
  show Option.map _ _ = _
  rw [show (db.jobs.rows.find? fun other => other.id = document.job.id) = some document from
    Relational.Table.find?_of_mem present]
  rfl

theorem mem_of_find {jobId : String} {row : Job} (found : (ledger db).find jobId = some row) :
    ∃ document ∈ db.jobs.rows, document.job = row := by
  obtain ⟨document, stored, same⟩ := Option.map_eq_some_iff.mp found
  exact ⟨document, List.mem_of_find?_eq_some stored, same⟩

/-- Sequence numbers and times of creation grow together. -/
structure InTurn (clock : Int) (db : Db) : Prop where
  grow : db.jobs.rows.Pairwise fun first second =>
    first.seq < second.seq ∧ first.job.createdAt < second.job.createdAt
  issued : ∀ document ∈ db.jobs.rows, document.seq ≤ db.seq ∧ document.job.createdAt ≤ clock

theorem InTurn.comparable (turns : InTurn clock db) {first second : Document}
    (present : first ∈ db.jobs.rows) (there : second ∈ db.jobs.rows) (apart : first ≠ second) :
    (first.seq < second.seq ∧ first.job.createdAt < second.job.createdAt) ∨
      (second.seq < first.seq ∧ second.job.createdAt < first.job.createdAt) := by
  have either : db.jobs.rows.Pairwise fun first second : Document =>
      (first.seq < second.seq ∧ first.job.createdAt < second.job.createdAt) ∨
        (second.seq < first.seq ∧ second.job.createdAt < first.job.createdAt) :=
    turns.grow.imp fun grown => .inl grown
  have mirrored : Std.Symm fun first second : Document =>
      (first.seq < second.seq ∧ first.job.createdAt < second.job.createdAt) ∨
        (second.seq < first.seq ∧ second.job.createdAt < first.job.createdAt) :=
    ⟨fun _ _ => Or.symm⟩
  exact either.forall present there apart

theorem ledger_updateJobs (selects : Job → Bool) (change : Job → Job)
    (keeps : ∀ row, (change row).id = row.id) :
    ledger (updateJobs selects change keeps db) = (ledger db).update selects change keeps := by
  ext1 jobId
  refine (congrArg (Option.map Document.job) (Relational.Table.find?_update _ _ _
    (Document.id_update keeps) jobId)).trans ?_
  rw [Ledger.find_update]
  show _ = Option.map _ (Option.map _ _)
  rw [Option.map_map, Option.map_map]
  refine Option.map_congr fun document _ => ?_
  simp only [Function.comp_apply]
  split <;> rfl

theorem inTurn_updateJobs (turns : InTurn clock db) (selects : Job → Bool) (change : Job → Job)
    (keeps : ∀ row, (change row).id = row.id)
    (created : ∀ row, (change row).createdAt = row.createdAt) :
    InTurn clock (updateJobs selects change keeps db) := by
  have same : ∀ document : Document,
      (if selects document.job then document.update change else document).seq = document.seq ∧
      (if selects document.job then document.update change else document).job.createdAt =
        document.job.createdAt := by
    intro document
    split
    · exact ⟨rfl, created document.job⟩
    · exact ⟨rfl, rfl⟩
  constructor
  · refine List.pairwise_map.mpr (turns.grow.imp fun grown => ?_)
    simp only [same]
    exact grown
  · intro document present
    obtain ⟨before, member, rfl⟩ := List.mem_map.mp present
    rw [(same before).1, (same before).2]
    exact turns.issued before member

theorem ledger_update (turns : InTurn clock db) {selects : Job → Bool} {change : Job → Job}
    {keeps : ∀ row, (change row).id = row.id} (id : Option String)
    (created : ∀ row, (change row).createdAt = row.createdAt) :
    (id, ledger (updateJobs selects change keeps db)) =
        (id, (ledger db).update selects change keeps) ∧
      InTurn clock (updateJobs selects change keeps db) :=
  ⟨Prod.ext rfl (ledger_updateJobs ..), inTurn_updateJobs turns _ _ _ created⟩

theorem next_of_claim (turns : InTurn clock db) {queue : String} {document : Document}
    (first : ((db.jobs.rows.filter (claimable queue)).insertionSort claimsBefore).head? =
      some document) : (ledger db).Next queue document.job := by
  obtain ⟨listed, least⟩ := Ranked.first_of_sorted first
  obtain ⟨present, able⟩ := List.mem_filter.mp listed
  simp only [claimable, Bool.and_eq_true, beq_iff_eq] at able
  refine ⟨find_of_mem present, able.1, able.2, fun other stored mine queued => ?_⟩
  obtain ⟨rival, there, rfl⟩ := mem_of_find stored
  rcases least rival (List.mem_filter.mpr ⟨there, by simp [claimable, mine, queued]⟩) with
    low | ⟨level, early⟩
  · exact .inl low
  · refine .inr ⟨level, ?_⟩
    by_cases same : document = rival
    · exact .inr ⟨by rw [same], by rw [same]⟩
    · rcases turns.comparable present there same with grown | grown
      · exact .inl grown.2
      · exact absurd grown.1 (Nat.not_lt.mpr early)

theorem next_none_of_claim {queue : String}
    (none : ((db.jobs.rows.filter (claimable queue)).insertionSort claimsBefore).head? =
      Option.none) : (ledger db).next queue = Option.none := by
  apply Ledger.next_none
  intro row next
  obtain ⟨document, present, rfl⟩ := mem_of_find next.stored
  have listed : document ∈ db.jobs.rows.filter (claimable queue) :=
    List.mem_filter.mpr ⟨present, by simp [claimable, next.mine, next.queued]⟩
  rw [List.head?_eq_none_iff] at none
  rw [← List.mem_insertionSort claimsBefore, none] at listed
  cases listed

/-- The turns of a sweep release what has lapsed among the ids they are for. -/
theorem ledger_reclaims (queue : Option String) (jobIds : List String) (db : Db) :
    ledger (jobIds.foldl (fun db jobId => reclaimNext queue now jobId now db) db) =
      (ledger db).update (fun row => jobIds.contains row.id && row.lapsed queue now)
        (Job.release now) (Job.id_release now) := by
  induction jobIds generalizing db with
  | nil =>
    ext1 jobId
    simp
  | cons jobId jobIds ih =>
    rw [List.foldl_cons, ih, reclaimNext, ledger_updateJobs]
    ext1 id
    simp only [Ledger.find_update, Option.map_map]
    refine Option.map_congr fun row _ => ?_
    by_cases lapsed : row.lapsed queue now = true <;> by_cases own : row.id = jobId <;>
      simp [lapsed, own]

theorem inTurn_reclaims (queue : Option String) (jobIds : List String) {db : Db}
    (turns : InTurn clock db) :
    InTurn clock (jobIds.foldl (fun db jobId => reclaimNext queue now jobId now db) db) := by
  induction jobIds generalizing db with
  | nil => exact turns
  | cons jobId jobIds ih => exact ih (inTurn_updateJobs turns _ _ _ fun _ => rfl)

theorem ledger_insert {document : Document} {jobs : Relational.Table Document Document.id Eq}
    (inserted : db.jobs.insert? document = some jobs) :
    (ledger db).find document.job.id = none ∧
      ledger { db with jobs } = (ledger db).add document.job := by
  have free := Relational.Table.find?_of_insert? inserted
  refine ⟨congrArg (Option.map Document.job) free, ?_⟩
  ext1 jobId
  refine (congrArg (Option.map Document.job)
    (Relational.Table.find?_insert? inserted jobId)).trans ?_
  by_cases own : document.id = jobId
  · subst own
    simp [Ledger.add, Document.id]
  · have other : jobId ≠ document.job.id := Ne.symm own
    simp only [Ledger.add, own, if_false, Function.update_of_ne other]
    rfl

theorem refused {document : Document} (refused : db.jobs.insert? document = none) :
    ∃ other, (ledger db).find document.job.id = some other := by
  cases found : (ledger db).find document.job.id with
  | some other => exact ⟨other, rfl⟩
  | none =>
    have absent := List.find?_eq_none.mp (Option.map_eq_none_iff.mp found)
    obtain ⟨jobs, inserted⟩ := Relational.Table.insert?_of_apart fun other present same =>
      absent other present (decide_eq_true same)
    rw [refused] at inserted
    cases inserted

theorem enqueue_eq {queue jobId : String} {payload : Dict} {priority : Int}
    (fits : -2 ^ 63 ≤ priority ∧ priority < 2 ^ 63) :
    enqueue nameSpace queue payload jobId priority now db =
      match db.jobs.insert? ⟨Ledger.newRow nameSpace queue payload jobId priority now,
        db.seq + 1⟩ with
      | some jobs => (.enqueued jobId, { db with jobs, seq := db.seq + 1 })
      | none => (.raised ⟨.other "DuplicateKeyError", "E11000 duplicate key error"⟩,
          { db with seq := db.seq + 1 }) := by
  have wide : ¬ (priority < -2 ^ 63 ∨ 2 ^ 63 ≤ priority) := by omega
  simp only [enqueue, nextSeq, insertOne, wide, if_false]
  rfl

/-- MongoDB is the ledger while the clock moves on. -/
theorem ledger_call (nameSpace : String) (turns : InTurn clock db) (later : clock < now) {op : Op}
    (fits : op.fits (2 ^ 63) = true) :
    (taken op (call nameSpace db (.whole op now)).1, ledger (call nameSpace db (.whole op now)).2) =
        (ledger db).call nameSpace op now ∧
      InTurn now (call nameSpace db (.whole op now)).2 := by
  have aged : InTurn now db :=
    ⟨turns.grow, fun document present =>
      ⟨(turns.issued document present).1, (turns.issued document present).2.trans later.le⟩⟩
  cases op with
  | enqueue queue payload given priority uuid =>
    simp only [call, enqueue_eq (by simpa [Op.fits] using fits), Ledger.call, taken]
    cases inserted : db.jobs.insert? ⟨Ledger.newRow nameSpace queue payload (newId given uuid)
        priority now, db.seq + 1⟩ with
    | none =>
      obtain ⟨other, found⟩ := refused inserted
      rw [show (ledger db).find (newId given uuid) = some other from found]
      exact ⟨rfl, aged.grow, fun document present =>
        ⟨(aged.issued document present).1.trans (Nat.le_succ _), (aged.issued document present).2⟩⟩
    | some jobs =>
      obtain ⟨free, added⟩ := ledger_insert inserted
      rw [show (ledger db).find (newId given uuid) = none from free]
      refine ⟨Prod.ext rfl added, ?_, ?_⟩
      · show jobs.rows.Pairwise _
        rw [Relational.Table.rows_insert? inserted, List.pairwise_append]
        refine ⟨turns.grow, by simp, fun document present new last => ?_⟩
        obtain ⟨issued, created⟩ := turns.issued document present
        rw [List.mem_singleton.mp last]
        exact ⟨Nat.lt_succ_of_le issued, created.trans_lt later⟩
      · intro document present
        rw [Relational.Table.rows_insert? inserted] at present
        rcases List.mem_append.mp present with old | new
        · exact ⟨(aged.issued document old).1.trans (Nat.le_succ _), (aged.issued document old).2⟩
        · rw [List.mem_singleton.mp new]
          exact ⟨le_rfl, le_rfl⟩
  | claim queue worker leaseS =>
    simp only [call, claim, Ledger.call]
    cases first : ((db.jobs.rows.filter (claimable queue)).insertionSort claimsBefore).head? with
    | none =>
      rw [next_none_of_claim first]
      exact ⟨rfl, aged⟩
    | some document =>
      rw [Ledger.next_eq (next_of_claim turns first)]
      exact ledger_update aged (some document.id) fun _ => rfl
  | renewLease jobId worker leaseS => exact ledger_update aged none fun _ => rfl
  | reclaimExpired queue =>
    refine ⟨Prod.ext rfl ((ledger_reclaims queue _ db).trans ?_), inTurn_reclaims queue _ aged⟩
    refine Ledger.update_congr fun id row found => ?_
    obtain ⟨document, present, rfl⟩ := mem_of_find found
    by_cases lapsed : document.job.lapsed queue now = true
    · have listed : document.job.id ∈
          (db.jobs.rows.filter fun document => document.job.lapsed queue now).map Document.id :=
        List.mem_map_of_mem (List.mem_filter.mpr ⟨present, lapsed⟩)
      simp only [lapsed, Bool.and_true, List.contains_iff_mem]
      exact listed
    · simp [lapsed]
  | requeueForRetry jobId => exact ledger_update aged none fun _ => rfl
  | terminal ending =>
    simp only [call, terminal]
    cases found : db.jobs.rows.find? fun document => openRow ending.jobId document.job with
    | none =>
      have idle : (ledger db).update (openRow ending.jobId) (Job.finish ending now)
          (Job.id_finish ending now) = ledger db := by
        refine Ledger.update_idle fun jobId row stored => ?_
        obtain ⟨document, present, rfl⟩ := mem_of_find stored
        exact List.find?_eq_none.mp found document present
      exact ⟨Prod.ext rfl idle.symm, aged⟩
    | some document =>
      have ended : _ ∧ InTurn now (updateJobs (openRow ending.jobId) (Job.finish ending now)
          (Job.id_finish ending now) db) := ledger_update aged none fun _ => rfl
      cases ending.event with
      | none => exact ended
      | some event => exact ⟨ended.1, ended.2.grow, ended.2.issued⟩

end Mongo

end QueueWorkflows.Backend
