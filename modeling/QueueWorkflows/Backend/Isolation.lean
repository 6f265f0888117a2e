import QueueWorkflows.Base.Ranked
import QueueWorkflows.Backend.RowStores
import QueueWorkflows.Backend.Tenants

/-! What one namespace sees of another. Each adapter's reads depend on a part of the
server; where the encodings of two namespaces do not overlap, the calls of the one
leave the part of the other as it is. -/

namespace QueueWorkflows.Backend

section Unwinding

variable {σ ι : Type} {tenancy : Tenancy σ ι} {writer reader : String}

/-- What no single call changes is not changed by any sequence. -/
theorem Tenancy.Isolated.of_call
    (keeps : ∀ server request,
      tenancy.reads reader (tenancy.call writer server request) = tenancy.reads reader server) :
    tenancy.Isolated writer reader := by
  intro server calls
  induction calls generalizing server with
  | nil => rfl
  | cons request rest ih => exact (ih _).trans (keeps server request)

/-- Rows that change outside a part of the list leave that part alone. -/
theorem filter_map_outside {α : Type} {part : α → Bool} {change : α → α} {rows : List α}
    (outside : ∀ row ∈ rows, change row = row ∨ part row = false ∧ part (change row) = false) :
    (rows.map change).filter part = rows.filter part := by
  induction rows with
  | nil => rfl
  | cons row rest ih =>
    have others := ih fun other member => outside other (List.mem_cons_of_mem _ member)
    rcases outside row List.mem_cons_self with same | ⟨before, after⟩
    · simp only [List.map_cons, List.filter_cons, same, others]
    · rw [List.map_cons, List.filter_cons_of_neg (by simp [after]),
        List.filter_cons_of_neg (by simp [before]), others]

theorem upsert_outside {α : Type} {clashes part : α → Bool} {row : α} {rows : List α}
    (new : part row = false) (old : ∀ other, clashes other = true → part other = false) :
    (upsert clashes row rows).filter part = rows.filter part := by
  unfold upsert
  split
  · apply filter_map_outside
    intro other _
    by_cases clash : clashes other = true
    · exact .inr ⟨old other clash, by simpa [clash] using new⟩
    · exact .inl (by simp [clash])
  · simp [new]

/-- A question that asks for the namespace too is a question to its part. -/
theorem filter_of_part {α : Type} {rows : List α} {mine holds asks : α → Bool}
    (same : ∀ row, asks row = (mine row && holds row)) :
    rows.filter asks = (rows.filter mine).filter holds := by
  rw [List.filter_filter]
  apply List.filter_congr
  intro row _
  rw [same, Bool.and_comm]

theorem find_of_part {α : Type} {rows : List α} {mine holds asks : α → Bool}
    (same : ∀ row, asks row = (mine row && holds row)) :
    rows.find? asks = (rows.filter mine).find? holds := by
  rw [← List.head?_filter, filter_of_part same, List.head?_filter]

end Unwinding

/-! ### Postgres -/

namespace Postgres

/-- The rows of one namespace. -/
structure View where
  jobs : List Job
  events : List Event
  workers : List (Scoped Worker)
  controls : List (Scoped Control)

def view (nameSpace : String) (server : Server) : View where
  jobs := server.db.jobs.rows.filter fun row => row.nameSpace == nameSpace
  events := server.db.events.filter fun event => event.nameSpace == nameSpace
  workers := server.workers.filter fun other => other.nameSpace == nameSpace
  controls := server.controls.filter fun other => other.nameSpace == nameSpace

section View

variable {writer reader : String}

theorem get_iff {nameSpace jobId : String} {db : Db} {row : Job} :
    get nameSpace db jobId = some row ↔
      row ∈ (db.jobs.rows.filter fun row => row.nameSpace == nameSpace) ∧ row.id = jobId := by
  constructor
  · intro found
    obtain ⟨present, named, mine⟩ := get_cases found
    exact ⟨List.mem_filter.mpr ⟨present, by simp [mine]⟩, named⟩
  · rintro ⟨listed, rfl⟩
    obtain ⟨present, mine⟩ := List.mem_filter.mp listed
    exact get_of_mem present (by simpa using mine)

variable {first second : Server}

theorem claim_of_view (queue worker : String) (leaseS now : Int) (locked : List String)
    (same : view reader first = view reader second) :
    (claim reader queue worker leaseS now locked first.db).1 =
      (claim reader queue worker leaseS now locked second.db).1 := by
  have split (row : Job) : claimable reader queue locked row = (row.nameSpace == reader &&
      (row.queue == queue && row.status == .queued && !locked.contains row.id)) := by
    simp only [claimable, Bool.and_assoc]
  have chosen : first.db.jobs.rows.filter (claimable reader queue locked) =
      second.db.jobs.rows.filter (claimable reader queue locked) := by
    rw [filter_of_part split, filter_of_part split, (View.mk.inj same).1]
  unfold claim
  rw [chosen]
  split <;> rfl

theorem counts_of_view (queue : String) (status : Status)
    (same : view reader first = view reader second) :
    counts reader first.db queue status = counts reader second.db queue status := by
  have split (row : Job) : (row.nameSpace == reader && row.queue == queue &&
      row.status == status) = (row.nameSpace == reader &&
        (row.queue == queue && row.status == status)) := Bool.and_assoc ..
  unfold counts
  rw [filter_of_part split, filter_of_part split, (View.mk.inj same).1]

theorem workers_of_view (queue : String) (now : Int)
    (same : view reader first = view reader second) :
    workers reader first queue now = workers reader second queue now := by
  have split (other : Scoped Worker) : (other.nameSpace == reader && other.row.queue == queue &&
      decide (now - 60 < other.row.lastSeen)) = (other.nameSpace == reader &&
        (other.row.queue == queue && decide (now - 60 < other.row.lastSeen))) :=
    Bool.and_assoc ..
  unfold workers
  rw [filter_of_part split, filter_of_part split, (View.mk.inj same).2.2.1]

theorem desiredState_of_view (host queue : String)
    (same : view reader first = view reader second) :
    desiredState reader first host queue = desiredState reader second host queue := by
  have split (other : Scoped Control) : (other.nameSpace == reader && other.row.host == host &&
      other.row.queue == queue) = (other.nameSpace == reader &&
        (other.row.host == host && other.row.queue == queue)) := Bool.and_assoc ..
  unfold desiredState
  rw [find_of_part split, find_of_part split, (View.mk.inj same).2.2.2]

theorem events_of_view (since limit : Nat) (same : view reader first = view reader second) :
    events reader first.db since limit = events reader second.db since limit := by
  have split (event : Event) : (event.nameSpace == reader && decide (since < event.seq)) =
      (event.nameSpace == reader && decide (since < event.seq)) := rfl
  unfold events
  rw [filter_of_part split, filter_of_part split, (View.mk.inj same).2.1]

theorem reads_of_view (same : view (scope reader) first = view (scope reader) second) :
    tenancy.reads reader first = tenancy.reads reader second := by
  apply Reads.ext
  · funext jobId
    ext row
    refine get_iff.trans (Iff.trans ?_ get_iff.symm)
    exact iff_of_eq (congrArg (fun view => row ∈ view.jobs ∧ row.id = jobId) same)
  · funext queue worker leaseS now locked
    exact claim_of_view queue worker leaseS now locked same
  · funext queue status
    exact counts_of_view queue status same
  · funext since limit
    exact events_of_view since limit same
  · funext queue now
    exact congrArg _ (workers_of_view queue now same)
  · funext host queue
    exact desiredState_of_view host queue same

/-- A call under one namespace rewrites and adds rows of that namespace only. -/
theorem view_call (apart : writer ≠ reader) (db : Db) (step : Step) :
    ((call writer db step).2.jobs.rows.filter fun row => row.nameSpace == reader) =
        (db.jobs.rows.filter fun row => row.nameSpace == reader) ∧
      ((call writer db step).2.events.filter fun event => event.nameSpace == reader) =
        db.events.filter fun event => event.nameSpace == reader := by
  have rewrites {selects : Job → Bool} {change : Job → Job}
      (keeps : ∀ row, (change row).nameSpace = row.nameSpace)
      (mine : ∀ row ∈ db.jobs.rows, selects row = true → row.nameSpace = writer) :
      ((db.jobs.rows.map fun row => if selects row then change row else row).filter fun row =>
        row.nameSpace == reader) = db.jobs.rows.filter fun row => row.nameSpace == reader := by
    apply filter_map_outside
    intro row member
    by_cases selected : selects row = true
    · right
      simp [selected, keeps, mine row member selected, apart]
    · left
      simp [selected]
  have owned {jobId : String} {row : Job} (owns : owns writer jobId row = true) :
      row.nameSpace = writer := by
    simp only [Postgres.owns, Bool.and_eq_true, beq_iff_eq] at owns
    exact owns.2
  have opened {jobId : String} {row : Job} (selected : openRow writer jobId row = true) :
      row.nameSpace = writer := owned (Bool.and_eq_true_iff.mp selected).1
  unfold call
  cases step.op with
  | enqueue queue payload given priority uuid =>
    unfold enqueue
    dsimp only
    split
    · exact ⟨rfl, rfl⟩
    · split
      · rename_i jobs inserted
        rw [Relational.Table.rows_insert? inserted]
        simp [apart]
      · exact ⟨rfl, rfl⟩
  | claim queue worker leaseS =>
    unfold claim
    dsimp only
    split
    · exact ⟨rfl, rfl⟩
    · rename_i row chosen
      have listed := (List.perm_insertionSort _ _).mem_iff.mp (List.mem_of_mem_head? chosen)
      obtain ⟨present, claims⟩ := List.mem_filter.mp listed
      refine ⟨rewrites (fun _ => rfl) fun other member same => ?_, rfl⟩
      simp only [claimable, Bool.and_eq_true, beq_iff_eq] at claims
      have twin : other = row := db.jobs.eq_of_clash Eq.symm member present (by simpa using same)
      rw [twin]
      exact claims.1.1.1
  | renewLease jobId worker leaseS =>
    refine ⟨rewrites (fun _ => rfl) fun row _ renewed => ?_, rfl⟩
    simp only [renews, Bool.and_eq_true] at renewed
    exact owned renewed.1.1
  | reclaimExpired queue =>
    refine ⟨rewrites (fun _ => rfl) fun row _ expired => ?_, rfl⟩
    simp only [lapsed, Bool.and_eq_true, beq_iff_eq] at expired
    exact expired.1
  | requeueForRetry jobId => exact ⟨rewrites (fun _ => rfl) fun _ _ => opened, rfl⟩
  | terminal ending =>
    have marked : ((db.jobs.rows.map fun row => if openRow writer ending.jobId row then
        row.finish ending step.now else row).filter fun row => row.nameSpace == reader) =
        db.jobs.rows.filter fun row => row.nameSpace == reader :=
      rewrites (fun _ => rfl) fun _ _ => opened
    unfold terminal markIn
    dsimp only
    cases db.jobs.rows.find? (openRow writer ending.jobId) with
    | none => exact ⟨rfl, rfl⟩
    | some row =>
      cases ending.event with
      | none => exact ⟨marked, rfl⟩
      | some event => exact ⟨marked, by simp [apart]⟩

theorem view_tenancy (apart : scope writer ≠ scope reader) (server : Server)
    (request : Call Step) :
    view (scope reader) (tenancy.call writer server request) = view (scope reader) server := by
  have foreign : (scope writer == scope reader) = false := by simpa using apart
  cases request with
  | port step =>
    obtain ⟨jobs, events⟩ := view_call apart server.db step
    unfold view
    congr 1
  | heartbeat worker staleAfterS =>
    unfold view
    congr 1
    refine upsert_outside foreign fun other clash => ?_
    simp only [Bool.and_eq_true, beq_iff_eq] at clash
    simpa [clash.1.1] using apart
  | setControl control =>
    unfold view
    congr 1
    refine upsert_outside foreign fun other clash => ?_
    simp only [Bool.and_eq_true, beq_iff_eq] at clash
    simpa [clash.1.1] using apart

/-- A namespace column keeps any two namespaces apart. -/
theorem isolated_iff : tenancy.Isolated writer reader ↔ scope writer ≠ scope reader := by
  constructor
  · intro isolated same
    have blind := isolated {} [.setControl ⟨"host", "queue", "off", "hard", none, 0⟩]
    have state := congrArg (fun reads => reads.desiredState "host" "queue") blind
    simp [tenancy, setControl, desiredState, upsert, same, Control.state] at state
  · intro apart
    exact .of_call fun server request => reads_of_view (view_tenancy apart server request)

end View

end Postgres

/-! ### MongoDB -/

namespace Mongo

variable {writer reader : String}

/-- The namespaces are apart exactly where their databases are. -/
theorem isolated_iff :
    tenancy.Isolated writer reader ↔ dbName (scope writer) ≠ dbName (scope reader) := by
  constructor
  · intro isolated same
    have blind := isolated {} [.setControl ⟨"host", "queue", "off", "hard", none, 0⟩]
    have state := congrArg (fun reads => reads.desiredState "host" "queue") blind
    simp [tenancy, Database.call, upsert, same, Control.state] at state
  · intro apart
    apply Tenancy.Isolated.of_call
    intro server request
    have other : (tenancy.call writer server request).databases (dbName (scope reader)) =
        server.databases (dbName (scope reader)) := by
      simp only [tenancy]
      rw [Function.update_of_ne apart.symm]
    simp only [tenancy] at other ⊢
    rw [other]

end Mongo

/-! ### Redis -/

namespace Redis

/-- The kinds of key with free text behind them. -/
def freeKinds : List String := ["job", "q", "running", "cnt", "worker", "control"]

/-- Behind the prefix of the one namespace, the prefix of the other reads as the
beginning of a key of a free kind. -/
def nests (outer inner : String) : Bool :=
  freeKinds.any fun kind => (keysOf outer ++ kind ++ ":").toList.isPrefixOf (keysOf inner).toList

/-- No key of the one namespace can be read as a key of the other, or is found by the
other's scan for workers. -/
structure Apart (writer reader : String) : Prop where
  distinct : writer ≠ reader
  outside : nests writer reader = false
  inside : nests reader writer = false
  unscanned : ∀ key queue,
    globs (workersPattern (keysOf reader) queue) (Key.text (keysOf writer) key) = false

section Keys

/-- The text up to the first colon. -/
def segment (text : List Char) : List Char := text.takeWhile (· != ':')

theorem segment_begins {text rest : List Char} (colon : ':' ∈ text) :
    segment (text ++ rest) ++ [':'] <+: text := by
  induction text with
  | nil => cases colon
  | cons char text ih =>
    by_cases ends : char = ':'
    · subst ends
      exact ⟨text, by simp [segment]⟩
    · have later : ':' ∈ text := by simpa [Ne.symm ends] using colon
      obtain ⟨tail, same⟩ := ih later
      have grown : segment (char :: text ++ rest) = char :: segment (text ++ rest) := by
        simp [segment, ends]
      exact ⟨tail, by rw [grown, List.cons_append, List.cons_append, same]⟩

theorem segment_of_extension {short tail more : List Char} (proper : tail ≠ [])
    (ends : (short ++ tail).getLast? = some ':') :
    ':' ∈ tail ++ more ∧ short ++ segment (tail ++ more) ++ [':'] <+: short ++ tail := by
  have colon : ':' ∈ tail := by
    rw [List.getLast?_append_of_ne_nil _ proper] at ends
    exact List.mem_of_getLast? ends
  refine ⟨List.mem_append_left _ colon, ?_⟩
  rw [List.append_assoc]
  exact (List.prefix_append_right_inj short).mpr (segment_begins colon)

/-- Of two prefixes that end in a colon and share a key, the longer begins with the
shorter and the first segment of what follows it in the key. -/
theorem segment_of_shared {first second rest other : List Char}
    (firstEnds : first.getLast? = some ':') (secondEnds : second.getLast? = some ':')
    (distinct : first ≠ second) (same : first ++ rest = second ++ other) :
    (':' ∈ rest ∧ first ++ segment rest ++ [':'] <+: second) ∨
      (':' ∈ other ∧ second ++ segment other ++ [':'] <+: first) := by
  rcases List.append_eq_append_iff.mp same with ⟨tail, rfl, rfl⟩ | ⟨tail, rfl, rfl⟩
  · left
    refine segment_of_extension ?_ secondEnds
    rintro rfl
    exact distinct (List.append_nil first).symm
  · right
    refine segment_of_extension ?_ firstEnds
    rintro rfl
    exact distinct (List.append_nil second)

theorem keysOf_ends (nameSpace : String) : (keysOf nameSpace).toList.getLast? = some ':' := by
  have text : (keysOf nameSpace).toList = ("qw:" ++ nameSpace).toList ++ [':'] := by simp [keysOf]
  rw [text, List.getLast?_concat]

theorem keysOf_inj {first second : String} (same : keysOf first = keysOf second) :
    first = second := by
  simpa [keysOf] using same

/-- A key that is no number behind its kind. -/
def Key.named : Key → Bool
  | .event _ => false
  | _ => true

theorem segment_suffix {key : Key} (named : key.named = true)
    (colon : ':' ∈ key.suffix.toList) :
    ∃ kind ∈ freeKinds, segment key.suffix.toList = kind.toList := by
  cases key with
  | seq | queues | eventseq | events => exact absurd colon (by decide)
  | event => cases named
  | job jobId => exact ⟨"job", by decide, by simp [Key.suffix, segment]⟩
  | queue name => exact ⟨"q", by decide, by simp [Key.suffix, segment]⟩
  | running name => exact ⟨"running", by decide, by simp [Key.suffix, segment]⟩
  | count name status => exact ⟨"cnt", by decide, by simp [Key.suffix, segment]⟩
  | worker name host => exact ⟨"worker", by decide, by simp [Key.suffix, segment]⟩
  | control host name => exact ⟨"control", by decide, by simp [Key.suffix, segment]⟩

theorem nests_of_prefix {outer inner : String} {key : Key} (named : key.named = true)
    (colon : ':' ∈ key.suffix.toList)
    (longer : (keysOf outer).toList ++ segment key.suffix.toList ++ [':'] <+:
      (keysOf inner).toList) : nests outer inner = true := by
  obtain ⟨kind, free, same⟩ := segment_suffix named colon
  unfold nests
  rw [List.any_eq_true]
  refine ⟨kind, free, ?_⟩
  rw [List.isPrefixOf_iff_prefix]
  simpa [same] using longer

variable {writer reader : String}

theorem Apart.text_ne (apart : Apart writer reader) {key other : Key}
    (named : key.named = true) (alsoNamed : other.named = true) :
    Key.text (keysOf writer) key ≠ Key.text (keysOf reader) other := by
  intro same
  have texts : (keysOf writer).toList ++ key.suffix.toList =
      (keysOf reader).toList ++ other.suffix.toList := by
    simpa [Key.text] using congrArg String.toList same
  have distinct : (keysOf writer).toList ≠ (keysOf reader).toList := by
    intro equal
    exact apart.distinct (keysOf_inj (String.toList_inj.mp equal))
  rcases segment_of_shared (keysOf_ends writer) (keysOf_ends reader) distinct texts with
    ⟨colon, longer⟩ | ⟨colon, longer⟩
  · have nested := nests_of_prefix named colon longer
    rw [apart.outside] at nested
    cases nested
  · have nested := nests_of_prefix alsoNamed colon longer
    rw [apart.inside] at nested
    cases nested

theorem jobKey_eq (keys jobId : String) : jobKey keys jobId = Key.text keys (.job jobId) :=
  String.append_assoc ..

theorem queueKey_eq (keys queue : String) : queueKey keys queue = Key.text keys (.queue queue) :=
  String.append_assoc ..

theorem countKey_eq (keys queue : String) (status : Status) :
    countKey keys queue status = Key.text keys (.count queue status) := by
  simp only [countKey, Key.text, Key.suffix, String.append_assoc]

end Keys

/-- The part of the server that the reads under one prefix look at is the same. -/
structure Unseen (keys : String) (server after : Server) : Prop where
  hashes : ∀ jobId, after.hashes (jobKey keys jobId) = server.hashes (jobKey keys jobId)
  members : ∀ queue, after.members.filter (·.key == queueKey keys queue) =
    server.members.filter (·.key == queueKey keys queue)
  counters : ∀ queue status, after.counters (countKey keys queue status) =
    server.counters (countKey keys queue status)
  events : after.events (keys ++ "events") = server.events (keys ++ "events")

namespace Unseen

variable {keys key : String} {server middle after : Server}

theorem refl (keys : String) (server : Server) : Unseen keys server server :=
  ⟨fun _ => rfl, fun _ => rfl, fun _ _ => rfl, rfl⟩

theorem trans (first : Unseen keys server middle) (second : Unseen keys middle after) :
    Unseen keys server after where
  hashes jobId := (second.hashes jobId).trans (first.hashes jobId)
  members queue := (second.members queue).trans (first.members queue)
  counters queue status := (second.counters queue status).trans (first.counters queue status)
  events := second.events.trans first.events

theorem incr (earlier : Unseen keys server after)
    (apart : ∀ queue status, countKey keys queue status ≠ key) :
    Unseen keys server (after.incr key).2 :=
  earlier.trans ⟨fun _ => rfl, fun _ => rfl,
    fun queue status => Function.update_of_ne (apart queue status) _ _, rfl⟩

theorem decr (earlier : Unseen keys server after)
    (apart : ∀ queue status, countKey keys queue status ≠ key) :
    Unseen keys server (after.decr key) :=
  earlier.trans ⟨fun _ => rfl, fun _ => rfl,
    fun queue status => Function.update_of_ne (apart queue status) _ _, rfl⟩

theorem hset {hash : JobHash} (earlier : Unseen keys server after)
    (apart : ∀ jobId, jobKey keys jobId ≠ key) : Unseen keys server (after.hset key hash) :=
  earlier.trans ⟨fun jobId => Function.update_of_ne (apart jobId) _ _, fun _ => rfl,
    fun _ _ => rfl, rfl⟩

theorem rpush {event : Event} (earlier : Unseen keys server after)
    (apart : keys ++ "events" ≠ key) : Unseen keys server (after.rpush key event) :=
  earlier.trans ⟨fun _ => rfl, fun _ => rfl, fun _ _ => rfl, Function.update_of_ne apart _ _⟩

theorem sadd {name : String} (earlier : Unseen keys server after) :
    Unseen keys server (after.sadd key name) :=
  earlier.trans ⟨fun _ => rfl, fun _ => rfl, fun _ _ => rfl, rfl⟩

theorem lease {member : Lease} (earlier : Unseen keys server after) :
    Unseen keys server (after.lease member) :=
  earlier.trans ⟨fun _ => rfl, fun _ => rfl, fun _ _ => rfl, rfl⟩

theorem zrem {jobId : String} (earlier : Unseen keys server after) :
    Unseen keys server (after.zrem key jobId) :=
  earlier.trans ⟨fun _ => rfl, fun _ => rfl, fun _ _ => rfl, rfl⟩

theorem zadd {member : Member} (earlier : Unseen keys server after)
    (apart : ∀ queue, queueKey keys queue ≠ member.key) :
    Unseen keys server (after.zadd member) := by
  refine earlier.trans ⟨fun _ => rfl, fun queue => ?_, fun _ _ => rfl, rfl⟩
  have outside : (member.key == queueKey keys queue) = false := by
    simpa using (apart queue).symm
  unfold Server.zadd
  rw [Ranked.filter_insert_outside (by simpa using outside), List.filter_filter]
  apply List.filter_congr
  intro other _
  by_cases mine : other.key = queueKey keys queue
  · simp [mine, apart queue]
  · simp [mine]

theorem popMin {left : List Member} {popped : Member}
    (apart : ∀ queue, queueKey keys queue ≠ key)
    (found : Redis.popMin key server.members = some (popped, left)) :
    Unseen keys server { server with members := left } := by
  refine ⟨fun _ => rfl, fun queue => ?_, fun _ _ => rfl, rfl⟩
  dsimp only
  generalize server.members = members at found
  induction members generalizing left with
  | nil => cases found
  | cons first rest ih =>
    unfold Redis.popMin at found
    split at found
    · rename_i same
      cases found
      rw [List.filter_cons_of_neg]
      simpa [same] using (apart queue).symm
    · obtain ⟨⟨member, remaining⟩, inner, same⟩ := Option.map_eq_some_iff.mp found
      cases same
      rw [List.filter_cons, List.filter_cons, ih inner]

/-- The same queue, hash and counters give the same claim. -/
theorem claim_eq (unseen : Unseen keys server after) (tostring : Int → Int)
    (queue worker : String) (leaseS now : Int) :
    (luaClaim keys tostring queue worker leaseS now after).1 =
      (luaClaim keys tostring queue worker leaseS now server).1 := by
  have first (members : List Member) : (Redis.popMin (queueKey keys queue) members).map Prod.fst =
      (members.filter (·.key == queueKey keys queue)).head? := by
    induction members with
    | nil => rfl
    | cons member rest ih =>
      unfold Redis.popMin
      by_cases mine : member.key = queueKey keys queue
      · simp [mine]
      · simp only [mine, if_false, Option.map_map, List.filter_cons, beq_iff_eq]
        rw [← ih]
        rfl
  have heads : (Redis.popMin (queueKey keys queue) after.members).map Prod.fst =
      (Redis.popMin (queueKey keys queue) server.members).map Prod.fst := by
    rw [first, first, unseen.members]
  unfold luaClaim
  cases now : Redis.popMin (queueKey keys queue) after.members with
  | none =>
    cases then_ : Redis.popMin (queueKey keys queue) server.members with
    | none => rfl
    | some found => simp [now, then_] at heads
  | some found =>
    cases then_ : Redis.popMin (queueKey keys queue) server.members with
    | none => simp [now, then_] at heads
    | some other =>
      simp only [now, then_, Option.map_some, Option.some.injEq] at heads
      simp only [heads, unseen.hashes]

end Unseen

section Scripts

variable {writer reader : String} {server : Server}

/-- Keys of the writer that are no key of the reader. -/
theorem Apart.job_ne (apart : Apart writer reader) (jobId other : String) :
    jobKey (keysOf reader) other ≠ jobKey (keysOf writer) jobId := by
  rw [jobKey_eq, jobKey_eq]
  exact (apart.text_ne rfl rfl).symm

theorem Apart.queue_ne (apart : Apart writer reader) (queue other : String) :
    queueKey (keysOf reader) other ≠ queueKey (keysOf writer) queue := by
  rw [queueKey_eq, queueKey_eq]
  exact (apart.text_ne rfl rfl).symm

theorem Apart.count_ne (apart : Apart writer reader) {key : Key} (named : key.named = true)
    (queue : String) (status : Status) :
    countKey (keysOf reader) queue status ≠ Key.text (keysOf writer) key := by
  rw [countKey_eq]
  exact (apart.text_ne named rfl).symm

theorem Apart.events_ne (apart : Apart writer reader) :
    keysOf reader ++ "events" ≠ keysOf writer ++ "events" := by
  have distinct : Key.text (keysOf writer) .events ≠ Key.text (keysOf reader) .events :=
    apart.text_ne rfl rfl
  exact distinct.symm

variable {after : Server}

theorem Apart.counted (apart : Apart writer reader) {queue : String} {status : Status}
    (earlier : Unseen (keysOf reader) server after) : Unseen (keysOf reader) server
      (after.incr (countKey (keysOf writer) queue status)).2 := by
  rw [countKey_eq]
  exact earlier.incr (apart.count_ne rfl)

theorem Apart.uncounted (apart : Apart writer reader) {queue : String} {status : Status}
    (earlier : Unseen (keysOf reader) server after) : Unseen (keysOf reader) server
      (after.decr (countKey (keysOf writer) queue status)) := by
  rw [countKey_eq]
  exact earlier.decr (apart.count_ne rfl)

theorem Apart.numbered (apart : Apart writer reader)
    (earlier : Unseen (keysOf reader) server after) :
    Unseen (keysOf reader) server (after.incr (keysOf writer ++ "seq")).2 := by
  have key : keysOf writer ++ "seq" = Key.text (keysOf writer) .seq := rfl
  rw [key]
  exact earlier.incr (apart.count_ne rfl)

theorem unseen_enqueue (apart : Apart writer reader) {queue : String} {payload : Dict}
    {jobId : String} {priority now : Int} :
    Unseen (keysOf reader) server
      (luaEnqueue (keysOf writer) writer queue payload jobId priority now server) := by
  apply apart.counted
  apply Unseen.sadd
  apply Unseen.zadd ?_ (apart.queue_ne queue)
  apply Unseen.hset ?_ (apart.job_ne jobId)
  exact apart.numbered (.refl _ _)

theorem unseen_claim (apart : Apart writer reader) {tostring : Int → Int} {queue worker : String}
    {leaseS now : Int} : Unseen (keysOf reader) server
      (luaClaim (keysOf writer) tostring queue worker leaseS now server).2 := by
  unfold luaClaim
  split
  · exact .refl _ _
  · rename_i member members found
    apply apart.counted
    apply apart.uncounted
    apply Unseen.lease
    apply Unseen.hset ?_ (apart.job_ne member.jobId)
    exact Unseen.popMin (apart.queue_ne queue) found

theorem unseen_renew (apart : Apart writer reader) {tostring : Int → Int} {jobId worker : String}
    {leaseS now : Int} : Unseen (keysOf reader) server
      (luaRenew (keysOf writer) tostring jobId worker leaseS now server).2 := by
  unfold luaRenew
  split
  · exact .refl _ _
  · split
    · apply Unseen.lease
      exact Unseen.hset (.refl _ _) (apart.job_ne jobId)
    · exact .refl _ _

theorem Apart.announced (apart : Apart writer reader) {ending : Ending} {queue : String}
    {now : Int} (earlier : Unseen (keysOf reader) server after) :
    Unseen (keysOf reader) server (appendEvent (keysOf writer) writer ending queue now after) := by
  unfold appendEvent
  split
  · exact earlier
  · split
    · exact earlier
    · have key : keysOf writer ++ "eventseq" = Key.text (keysOf writer) .eventseq := rfl
      apply Unseen.rpush ?_ apart.events_ne
      rw [key]
      exact earlier.incr (apart.count_ne rfl)

theorem unseen_terminal (apart : Apart writer reader) {ending : Ending} {now : Int} :
    Unseen (keysOf reader) server
      (luaTerminal (keysOf writer) writer ending now server).2 := by
  unfold luaTerminal
  split
  · exact .refl _ _
  · split
    · exact .refl _ _
    · apply apart.announced
      apply apart.counted
      apply apart.uncounted
      apply Unseen.zrem
      exact Unseen.hset (.refl _ _) (apart.job_ne ending.jobId)

theorem unseen_requeue (apart : Apart writer reader) {jobId : String} {now : Int} :
    Unseen (keysOf reader) server (luaRequeue (keysOf writer) jobId now server).2 := by
  unfold luaRequeue
  split
  · exact .refl _ _
  · split
    · exact .refl _ _
    · apply apart.counted
      apply apart.uncounted
      apply Unseen.zadd ?_ (apart.queue_ne _)
      apply apart.numbered
      apply Unseen.zrem
      exact Unseen.hset (.refl _ _) (apart.job_ne jobId)

theorem unseen_fold {ι : Type} {turn : List String × Server → ι → List String × Server}
    {keys : String} (unseen : ∀ found item, Unseen keys found.2 (turn found item).2)
    (items : List ι) (found : List String × Server) :
    Unseen keys found.2 (items.foldl turn found).2 := by
  induction items generalizing found with
  | nil => exact .refl _ _
  | cons item rest ih => exact (unseen found item).trans (ih _)

theorem unseen_reclaim (apart : Apart writer reader) {queue : Option String} {now : Int} :
    Unseen (keysOf reader) server (reclaimExpired (keysOf writer) queue now server).2 := by
  unfold reclaimExpired
  refine unseen_fold (fun found queue => ?_) _ ([], server)
  refine unseen_fold (fun found jobId => ?_) _ found
  unfold reclaimOne
  split
  · exact .refl _ _
  · split
    · apply apart.counted
      apply apart.uncounted
      apply Unseen.zadd ?_ (apart.queue_ne _)
      apply apart.numbered
      apply Unseen.zrem
      exact Unseen.hset (.refl _ _) (apart.job_ne jobId)
    · exact .refl _ _

theorem unseen_call (apart : Apart writer reader) (tostring : Int → Int) (server : Server)
    (step : Step) : Unseen (keysOf reader) server (call tostring writer server step).2 := by
  unfold call
  cases step.op with
  | enqueue => exact unseen_enqueue apart
  | claim => exact unseen_claim apart
  | renewLease => exact unseen_renew apart
  | reclaimExpired => exact unseen_reclaim apart
  | requeueForRetry => exact unseen_requeue apart
  | terminal => exact unseen_terminal apart

end Scripts

section Isolated

variable {writer reader : String} {tostring : Int → Int}

theorem reads_of_unseen {space after : Keyspace}
    (unseen : Unseen (keysOf (scope reader)) space.server after.server)
    (workers : ∀ queue, (after.workers.filter fun hash =>
        globs (workersPattern (keysOf (scope reader)) queue) hash.key) =
      space.workers.filter fun hash =>
        globs (workersPattern (keysOf (scope reader)) queue) hash.key)
    (controls : ∀ host queue, (after.controls.filter fun hash =>
        hash.key == Key.text (keysOf (scope reader)) (.control host queue)) =
      space.controls.filter fun hash =>
        hash.key == Key.text (keysOf (scope reader)) (.control host queue)) :
    (tenancy tostring).reads reader after = (tenancy tostring).reads reader space := by
  apply Reads.ext
  · funext jobId
    exact congrArg (Option.map toJob) (unseen.hashes jobId)
  · funext queue worker leaseS now _
    exact congrArg (fun hash => Reply.job (hash.map toJob))
      (unseen.claim_eq tostring queue worker leaseS now)
  · funext queue status
    exact congrArg Int.toNat (unseen.counters queue status)
  · funext since limit
    have same : Redis.events (keysOf (scope reader)) (scope reader) after.server since limit =
        Redis.events (keysOf (scope reader)) (scope reader) space.server since limit := by
      unfold Redis.events
      rw [unseen.events]
    exact same
  · funext queue now
    have same : Redis.workers (keysOf (scope reader)) after queue now =
        Redis.workers (keysOf (scope reader)) space queue now := by
      unfold Redis.workers
      rw [filter_of_part fun _ => rfl, filter_of_part fun _ => rfl, workers queue]
    exact congrArg _ same
  · funext host queue
    have same : Redis.desiredState (keysOf (scope reader)) after host queue =
        Redis.desiredState (keysOf (scope reader)) space host queue := by
      unfold Redis.desiredState
      rw [← List.head?_filter, controls, List.head?_filter]
    exact same

/-- The key prefixes keep two namespaces apart, unless one reads as keys of the other. -/
theorem isolated_of_apart (apart : Apart (scope writer) (scope reader)) :
    (tenancy tostring).Isolated writer reader := by
  refine .of_call fun space request => ?_
  cases request with
  | port step =>
    exact reads_of_unseen (unseen_call apart tostring space.server step) (fun _ => rfl)
      fun _ _ => rfl
  | heartbeat worker staleAfterS =>
    refine reads_of_unseen (.refl _ _) (fun queue => ?_) fun _ _ => rfl
    have foreign : globs (workersPattern (keysOf (scope reader)) queue)
        (Key.text (keysOf (scope writer)) (.worker worker.queue worker.host)) = false :=
      apart.unscanned _ queue
    apply upsert_outside
    · exact foreign
    · intro other clash
      rw [beq_iff_eq.mp clash]
      exact foreign
  | setControl control =>
    refine reads_of_unseen (.refl _ _) (fun _ => rfl) fun host queue => ?_
    have foreign : (Key.text (keysOf (scope writer)) (.control control.host control.queue) ==
        Key.text (keysOf (scope reader)) (.control host queue)) = false := by
      simpa using apart.text_ne rfl rfl
    refine upsert_outside foreign fun other clash => ?_
    rw [beq_iff_eq.mp clash]
    exact foreign

end Isolated

end Redis

/-- Which namespaces do not see each other, on each backend. -/
theorem namespaces_isolated (tostring : Int → Int) (writer reader : String) :
    (Postgres.tenancy.Isolated writer reader ↔ scope writer ≠ scope reader) ∧
      (Mongo.tenancy.Isolated writer reader ↔
        Mongo.dbName (scope writer) ≠ Mongo.dbName (scope reader)) ∧
      (Redis.Apart (scope writer) (scope reader) →
        (Redis.tenancy tostring).Isolated writer reader) :=
  ⟨Postgres.isolated_iff, Mongo.isolated_iff, Redis.isolated_of_apart⟩

theorem Redis.apart_acme_globex : Redis.Apart "acme" "globex" where
  distinct := by decide
  outside := by decide
  inside := by decide
  unscanned key queue := by
    have pattern : (Redis.workersPattern (Redis.keysOf "globex") queue).toList =
        "qw:globex:worker:".toList ++ (queue ++ ":*").toList := by
      simp [Redis.workersPattern, Redis.keysOf]
    have text : (Redis.Key.text (Redis.keysOf "acme") key).toList =
        "qw:acme:".toList ++ key.suffix.toList := by
      simp [Redis.Key.text, Redis.keysOf]
    unfold Redis.globs
    rw [pattern, text]
    rfl

/-- Two tenants that are apart on all three backends. -/
theorem acme_globex_isolated : Postgres.tenancy.Isolated "acme" "globex" ∧
    Mongo.tenancy.Isolated "acme" "globex" ∧ (Redis.tenancy id).Isolated "acme" "globex" := by
  obtain ⟨postgres, mongo, redis⟩ := namespaces_isolated id "acme" "globex"
  exact ⟨postgres.mpr (by decide), mongo.mpr (by decide), redis Redis.apart_acme_globex⟩

/-- `a-b` and `a_b` share a database; the job `job:1` of `x` is the job `1` of `x:job`. -/
theorem namespaces_overlap :
    "a-b" ≠ "a_b" ∧ ¬ Mongo.tenancy.Isolated "a-b" "a_b" ∧
      "x" ≠ "x:job" ∧ ¬ (Redis.tenancy id).Isolated "x" "x:job" := by
  refine ⟨by decide, fun isolated => ?_, by decide, fun isolated => ?_⟩
  · exact Mongo.isolated_iff.mp isolated (by decide)
  · have blind := isolated {} [.port ⟨.enqueue "q" [] (some "job:1") 0 "", 0⟩]
    have got := congrArg (fun reads => (reads.get "1").isSome) blind
    revert got
    decide

end QueueWorkflows.Backend
