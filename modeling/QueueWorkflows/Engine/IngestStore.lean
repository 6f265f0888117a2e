import QueueWorkflows.Backend.ClaimOrder
import QueueWorkflows.Engine.Broker

/-! The seam of the ingest queue: the same calls go to the relational table `ingest_jobs`
or, mapped onto the port, to a backend. The ingest order is ascending and the port's is
descending, so a priority changes its sign on the way; what the reclaim of the table does
to a priority has no counterpart in the port. -/

namespace QueueWorkflows

open Relational (Table)
open Transaction (Reach follow)
open Backend (Op Port Ledger Status)

/-- `str(uuid.uuid4())`, the n-th time it is asked. -/
structure Uuids where
  of : Nat → String
  distinct : Function.Injective of
  nonempty : ∀ count, of count ≠ ""

namespace IngestStore

/-- The calls of the facade. A job is named by the count of its enqueue. -/
inductive Call where
  | enqueue (taskName queue : String) (reason : String := "tick") (priority : Int := 100)
      (args : Dict := []) (project : Option String := none)
  | claim (queue : String) (host : Option String := none) (leaseS : Int := 600)
  | renew (job : Nat) (host : String) (leaseS : Int := 600)
  | markCompleted (job : Nat) (result : Dict := [])
  | markFailed (job : Nat) (error : String)
  | reclaim

/-- `_validate`, the same on every backend. -/
def Call.validates (cfg : Config) : Call → Bool
  | .enqueue taskName queue _ _ _ _ =>
    match NodeQueue.checkIngest cfg taskName queue with
    | .ok () => true
    | .error _ => false
  | _ => true

/-! ### The relational path -/

def newJob (cfg : Config) (taskName queue reason : String) (priority : Int) (args : Dict)
    (project : Option String) (id : Nat) (now : Time) : IngestJob where
  id := id
  taskName := taskName
  queue := queue
  reason := reason
  args := args
  project := project.getD cfg.project
  priority := priority
  createdAt := now

/-- A call on `ingest_jobs`, with the id of the row that a claim takes. -/
def callTable (cfg : Config) (next : Nat) (table : IngestTable) (call : Call) (now : Time) :
    Option Nat × IngestTable :=
  match call with
  | .enqueue taskName queue reason priority args project =>
    (none, (table.insert?
      (newJob cfg taskName queue reason priority args project next now)).getD table)
  | .claim queue host leaseS =>
    match NodeQueue.claimNextIngestJob { queue, host, leaseS } cfg.project now table with
    | none => (none, table)
    | some (row, after) => (some row.id, after)
  | .renew job host leaseS => (none, NodeQueue.renewIngestLease job (some host) leaseS now table)
  | .markCompleted job result =>
    (none, NodeQueue.markIngestCompleted job (.obj result) now table)
  | .markFailed job error => (none, NodeQueue.markIngestFailed job error now table)
  | .reclaim => (none, NodeQueue.reclaimExpiredIngestLeases now table)

/-! ### The path over the port -/

def payload (taskName reason : String) (args : Dict) : Dict :=
  [("task_name", .str taskName), ("reason", .str reason), ("args", .obj args)]

/-- The call of the port that a call becomes. -/
def Call.op (uuids : Uuids) (next : Nat) : Call → Op
  | .enqueue taskName queue reason priority args _ =>
    .enqueue queue (payload taskName reason args) (some (uuids.of next)) (-priority) ""
  | .claim queue host leaseS => .claim queue (host.getD "") (seconds leaseS)
  | .renew job host leaseS => .renewLease (uuids.of job) host (seconds leaseS)
  | .markCompleted job result => Op.markCompleted (uuids.of job) (some result)
  | .markFailed job error => Op.markFailed (uuids.of job) (some error)
  | .reclaim => .reclaimExpired none

/-- How many ids have been taken after the call. -/
def Call.counts (next : Nat) : Call → Nat
  | .enqueue .. => next + 1
  | _ => next

/-- The status texts of the port are those of the table. -/
def rowStatus : Status → JobStatus
  | .queued => .queued
  | .running => .running
  | .completed => .completed
  | .failed => .failed

/-- What a call returns of a job, on either path. -/
structure IngestRow where
  id : String
  taskName : Option Json
  queue : String
  reason : Json
  args : Json
  status : JobStatus
  claimedBy : Option String
  priority : Int
  result : Option Dict
  error : Option String
  leaseExpiresAt : Option Time
  createdAt : Time

/-- `_job_to_ingest_row`. -/
def jobToIngestRow (job : Backend.Job) : IngestRow where
  id := job.id
  taskName := job.payload.get? "task_name"
  queue := job.queue
  reason := (job.payload.get? "reason").getD (.str "tick")
  args := (((job.payload.get? "args").filter Json.truthy).getD (.obj []))
  status := rowStatus job.status
  claimedBy := job.claimedBy
  priority := -job.priority
  result := job.result
  error := job.error
  leaseExpiresAt := job.leaseExpiresAt
  createdAt := job.createdAt

/-! ### Both paths side by side -/

/-- The table, a backend beside it, and the time of the last call. -/
structure Seam (σ : Type) where
  table : IngestTable := .empty
  store : σ
  next : Nat := 0
  clock : Int

section Seam

variable {σ ι : Type} (cfg : Config) (uuids : Uuids) (port : Port σ ι) (label : Op → Int → ι)

/-- The same call on both paths, later than all before it. -/
def seam (state : Seam σ) (call : Call × Int) : Option (Seam σ) :=
  if state.clock < call.2 then
    if call.1.validates cfg then some {
      table := (callTable cfg state.next state.table call.1 call.2).2
      store := port.after state.store (label (call.1.op uuids state.next) call.2)
      next := call.1.counts state.next
      clock := call.2 }
    else some { state with clock := call.2 }
  else none

/-- Along every run whose calls meet `ok`, a claim takes the same job on both paths, and
every job has the same status, priority and arguments. -/
def Agrees (ok : Seam σ → Call × Int → Bool) (first : Seam σ) : Prop :=
  ∀ state, Reach (seam cfg uuids port label) ok first state →
    (∀ queue host leaseS now, state.clock < now →
      (callTable cfg state.next state.table (.claim queue host leaseS) now).1.map uuids.of =
        Backend.taken (Call.op uuids state.next (.claim queue host leaseS))
          (port.reply state.store (label (Call.op uuids state.next (.claim queue host leaseS)) now))) ∧
    ∀ job, ((state.table.rows.find? fun row => row.id = job).map fun row =>
        (row.status, row.priority, Json.obj row.args)) =
      (port.get state.store (uuids.of job)).map fun found =>
        ((jobToIngestRow found).status, (jobToIngestRow found).priority,
          (jobToIngestRow found).args)

end Seam

/-! ### The table as a ledger -/

section Matching

variable {uuids : Uuids} {table after : IngestTable} {ledger : Ledger} {row : IngestJob}
  {job : Backend.Job} {cfg : Config} {next : Nat} {clock now : Int}

/-- A row of the table and the job of the port that stands for it. The table keeps a
claimer without a name as `NULL`, the port as an empty text. -/
structure Pair (row : IngestJob) (job : Backend.Job) : Prop where
  queue : job.queue = row.queue
  status : rowStatus job.status = row.status
  payload : job.payload = payload row.taskName row.reason row.args
  priority : job.priority = -row.priority
  leaseExpiresAt : job.leaseExpiresAt = row.leaseExpiresAt
  createdAt : job.createdAt = row.createdAt
  claimedBy : row.status = .running → job.claimedBy = some (row.claimedBy.getD "")

structure Matches (uuids : Uuids) (cfg : Config) (next : Nat) (clock : Int) (table : IngestTable)
    (ledger : Ledger) : Prop where
  forth : ∀ row ∈ table.rows, ∃ job, ledger.find (uuids.of row.id) = some job ∧ Pair row job
  back : ∀ jobId job, ledger.find jobId = some job →
    ∃ row ∈ table.rows, uuids.of row.id = jobId ∧ Pair row job
  below : ∀ row ∈ table.rows, row.id < next
  home : ∀ row ∈ table.rows, row.project = cfg.project
  grow : table.rows.Pairwise fun first second => first.createdAt < second.createdAt
  past : ∀ row ∈ table.rows, row.createdAt ≤ clock

theorem rowStatus_inj {first second : Status} (same : rowStatus first = rowStatus second) :
    first = second := by
  revert same
  cases first <;> cases second <;> decide

theorem Pair.status_eq (pair : Pair row job) {status : Status} :
    job.status = status ↔ row.status = rowStatus status := by
  rw [← pair.status]
  exact ⟨fun same => by rw [same], rowStatus_inj⟩

/-- The same change on both sides. -/
theorem Matches.update (matched : Matches uuids cfg next clock table ledger)
    {selects : IngestJob → Bool} {change : IngestJob → IngestJob} {chooses : Backend.Job → Bool}
    {turns : Backend.Job → Backend.Job} (keeps : ∀ row, (change row).id = row.id)
    (stays : ∀ job, (turns job).id = job.id)
    (still : ∀ row, (change row).project = row.project ∧ (change row).createdAt = row.createdAt)
    (same : ∀ row ∈ table.rows, ∀ job, ledger.find (uuids.of row.id) = some job → Pair row job →
      selects row = chooses job)
    (pairs : ∀ row ∈ table.rows, ∀ job, Pair row job → selects row = true →
      Pair (change row) (turns job)) :
    Matches uuids cfg next clock (table.update selects change keeps)
      (ledger.update chooses turns stays) := by
  have kept : ∀ row : IngestJob, (if selects row then change row else row).id = row.id ∧
      (if selects row then change row else row).project = row.project ∧
      (if selects row then change row else row).createdAt = row.createdAt := by
    intro row
    split
    · exact ⟨keeps row, still row⟩
    · exact ⟨rfl, rfl, rfl⟩
  have changed : ∀ row ∈ table.rows, ∀ job, ledger.find (uuids.of row.id) = some job →
      Pair row job → Pair (if selects row then change row else row)
        (if chooses job then turns job else job) := by
    intro row present job stored pair
    rw [← same row present job stored pair]
    split
    · rename_i selected
      exact pairs row present job pair selected
    · exact pair
  constructor
  · intro row present
    obtain ⟨before, member, rfl⟩ := List.mem_map.mp present
    obtain ⟨job, stored, pair⟩ := matched.forth before member
    refine ⟨_, ?_, changed before member job stored pair⟩
    rw [(kept before).1, Ledger.find_update, stored, Option.map_some]
  · intro jobId job found
    obtain ⟨before, stored, rfl⟩ := Option.map_eq_some_iff.mp found
    obtain ⟨row, present, named, pair⟩ := matched.back jobId before stored
    refine ⟨_, List.mem_map_of_mem present, ?_, changed row present before (named ▸ stored) pair⟩
    rw [(kept row).1, named]
  · intro row present
    obtain ⟨before, member, rfl⟩ := List.mem_map.mp present
    rw [(kept before).1]
    exact matched.below before member
  · intro row present
    obtain ⟨before, member, rfl⟩ := List.mem_map.mp present
    rw [(kept before).2.1]
    exact matched.home before member
  · refine List.pairwise_map.mpr (matched.grow.imp fun grown => ?_)
    rw [(kept _).2.2, (kept _).2.2]
    exact grown
  · intro row present
    obtain ⟨before, member, rfl⟩ := List.mem_map.mp present
    rw [(kept before).2.2]
    exact matched.past before member

theorem Matches.later (matched : Matches uuids cfg next clock table ledger) (later : clock ≤ now) :
    Matches uuids cfg next now table ledger :=
  { matched with past := fun row present => (matched.past row present).trans later }

theorem Matches.fresh (matched : Matches uuids cfg next clock table ledger) :
    ledger.find (uuids.of next) = none := by
  cases found : ledger.find (uuids.of next) with
  | none => rfl
  | some job =>
    obtain ⟨row, present, named, -⟩ := matched.back _ job found
    have below := matched.below row present
    have same := uuids.distinct named
    omega

theorem Matches.together (matched : Matches uuids cfg next clock table ledger)
    {first second : IngestJob} (present : first ∈ table.rows) (member : second ∈ table.rows)
    (same : first.createdAt = second.createdAt) : first = second := by
  have apart : table.rows.Pairwise fun first second =>
      first.createdAt = second.createdAt → first = second :=
    matched.grow.imp fun less equal => absurd equal less.ne
  have : Std.Symm fun first second : IngestJob =>
      first.createdAt = second.createdAt → first = second :=
    ⟨fun _ _ forth equal => (forth equal.symm).symm⟩
  exact apart.forall_of_forall (fun _ _ _ => rfl) present member same

/-- The claimable rows of the table are the queued jobs of the ledger. -/
theorem next_of_claim (matched : Matches uuids cfg next clock table ledger) {queue : String}
    {host : Option String} {leaseS : Int} {after : IngestTable}
    (claimed : NodeQueue.claimNextIngestJob { queue, host, leaseS } cfg.project now table =
      some (row, after)) :
    ∃ job, ledger.Next queue job ∧ job.id = uuids.of row.id ∧
      after = table.update (·.id == row.id) (NodeQueue.takenIngest { queue, host, leaseS } now)
        fun _ => rfl := by
  obtain ⟨chosen, first, same⟩ := Option.map_eq_some_iff.mp claimed
  obtain ⟨rfl, rfl⟩ := Prod.mk.inj same
  obtain ⟨present, able⟩ := List.mem_filter.mp (NodeQueue.firstBy_mem first)
  have least := NodeQueue.firstBy_least first fun _ => Eq.refl 2
  simp only [List.contains_nil, Bool.not_false, Bool.and_true, Bool.and_eq_true,
    beq_iff_eq] at able
  obtain ⟨job, stored, pair⟩ := matched.forth chosen present
  have named := ledger.keyed stored
  refine ⟨job, ⟨named ▸ stored, pair.queue.trans able.1.1, pair.status_eq.mpr able.1.2, ?_⟩,
    named, rfl⟩
  intro other there mine queued
  obtain ⟨rival, member, itsName, both⟩ := matched.back other.id other there
  have listed := least rival (List.mem_filter.mpr ⟨member, by
    simp [← both.queue, mine, both.status_eq.mp queued, matched.home rival member, rowStatus]⟩)
  simp only [NodeQueue.lexBefore, Bool.and_false, Bool.or_false, Bool.or_eq_false_iff,
    decide_eq_false_iff_not, Bool.and_eq_false_iff, beq_eq_false_iff_ne, not_lt] at listed
  rw [Backend.Postgres.claimsBefore, pair.priority, both.priority, pair.createdAt, both.createdAt]
  rcases listed.1.lt_or_eq with above | level
  · exact .inl (neg_lt_neg above)
  · refine .inr ⟨congrArg Neg.neg level, ?_⟩
    rcases (listed.2.resolve_left (not_not.mpr level.symm)).lt_or_eq with earlier | together
    · exact .inl earlier
    · refine .inr ⟨together, ?_⟩
      have own := matched.together present member together
      rw [named, ← itsName, own]

theorem next_none_of_claim (matched : Matches uuids cfg next clock table ledger) {queue : String}
    {host : Option String} {leaseS : Int}
    (idle : NodeQueue.claimNextIngestJob { queue, host, leaseS } cfg.project now table = none) :
    ledger.next queue = none := by
  apply Ledger.next_none
  intro job turn
  obtain ⟨row, present, -, pair⟩ := matched.back job.id job turn.stored
  have waits : row.status = .queued := pair.status_eq.mp turn.queued
  have nobody := Option.map_eq_none_iff.mp idle
  have empty := mt NodeQueue.firstBy_isSome (by rw [nobody]; decide)
  refine empty (List.ne_nil_of_mem (List.mem_filter.mpr ⟨present, ?_⟩))
  simp [← pair.queue, turn.mine, waits, matched.home row present]

theorem Matches.find (matched : Matches uuids cfg next clock table ledger) (target : Nat) :
    ((table.rows.find? fun row => row.id = target).map fun row =>
        (row.status, row.priority, Json.obj row.args)) =
      (ledger.find (uuids.of target)).map fun job =>
        ((jobToIngestRow job).status, (jobToIngestRow job).priority, (jobToIngestRow job).args) := by
  cases found : table.rows.find? fun row => row.id = target with
  | none =>
    cases stored : ledger.find (uuids.of target) with
    | none => rfl
    | some job =>
      obtain ⟨row, present, named, -⟩ := matched.back _ job stored
      have absent := List.find?_eq_none.mp found row present
      simp [uuids.distinct named] at absent
  | some row =>
    have mine : row.id = target := by simpa using List.find?_some found
    obtain ⟨job, stored, pair⟩ := matched.forth row (List.mem_of_find?_eq_some found)
    rw [← mine, stored, Option.map_some, Option.map_some]
    refine congrArg some (Prod.ext pair.status.symm (Prod.ext ?_ ?_))
    · show row.priority = -job.priority
      rw [pair.priority, neg_neg]
    · show Json.obj row.args = _
      rw [jobToIngestRow, pair.payload]
      cases row.args <;> rfl

end Matching

section Runs

variable {σ ι : Type} {cfg : Config} {uuids : Uuids} {port : Port σ ι} {label : Op → Int → ι}
  {nameSpace : String} {allowed : Ledger → Op → Int → Prop} {follows : Int → Ledger → σ → Prop}
  {ok : Seam σ → Call × Int → Bool} {first : Seam σ}

end Runs

/-- The status of the port with the text of a row's. -/
def spiStatus : JobStatus → Status
  | .queued => .queued
  | .running => .running
  | .completed => .completed
  | _ => .failed

/-- A row as the job of the port that stands for it, as far as the order of calls depends
on it. -/
def toJob (uuids : Uuids) (row : IngestJob) : Backend.Job where
  id := uuids.of row.id
  queue := row.queue
  nameSpace := ""
  status := spiStatus row.status
  payload := []
  priority := -row.priority
  attempts := 0
  claimedBy := row.claimedBy
  leaseExpiresAt := row.leaseExpiresAt
  result := none
  error := row.error
  createdAt := row.createdAt
  updatedAt := row.createdAt

namespace Sample

def cfg : Config where
  workflowLoader id := .error ⟨.keyError, id⟩
  pipelineSchemaLoader id := .error ⟨.keyError, id⟩
  resolveRef value _ := .ok value
  literalEval _ := none
  jsonLoads _ := none
  strOf _ := ""
  ingestTaskMap := [("sync", fun _ args => .ok (.json (.obj args)))]

def uuids : Uuids where
  of count := String.ofList (List.replicate (count + 1) 'x')
  distinct first second same := by
    have length := congrArg (fun text => text.toList.length) same
    simpa using length
  nonempty count empty := by simp [List.replicate_succ] at empty

def mongo : Port Backend.Mongo.Db Backend.Mongo.Step := Backend.Mongo.port "default"

/-- A job is claimed, its lease lapses, and it is put back. -/
def lapsed (priority : Int) : List (Call × Int) := [
  (.enqueue "sync" "fetch" "tick" priority, 1), (.claim "fetch" (some "w") 1, 2),
  (.reclaim, 3 + seconds 1)]

def agreed (ok : Seam Backend.Mongo.Db → Call × Int → Bool) (calls : List (Call × Int)) :
    Seam Backend.Mongo.Db :=
  (follow (seam cfg uuids mongo .whole) ok { store := {}, clock := 0 } calls).getD
    { store := {}, clock := 0 }

end Sample

end IngestStore

end QueueWorkflows
