import QueueWorkflows.Engine.Outbox

/-! The outbox over whole runs. A run is audited: at each step the terminal events
just committed are attributed to the row of their cell, and the rows that a
worker's path just made terminal are noted. The two accounts agree. -/

namespace QueueWorkflows

open Relation (ReflTransGen)
open Transaction (Pool Reach follow)
open Transaction.Prog (Always stays)

/-- One terminal transition, or one terminal event, of a row. -/
structure Announcement where
  jobId : Nat
  runId : String
  nodeId : String
  kind : EventKind
deriving DecidableEq

def Announcement.of (row : NodeJob) (kind : EventKind) : Announcement :=
  ⟨row.id, row.runId, row.nodeId, kind⟩

/-- The rows that one step took from a status that is not closed to `completed` or `failed`. -/
def newlySettled (before after : Db) : List Announcement :=
  after.jobs.rows.filterMap fun row =>
    if before.jobs.rows.any fun old => old.id == row.id && !old.status.closed then
      row.status.announced.map (Announcement.of row)
    else none

/-- A terminal event, with the row that fills its cell. -/
def attributed (db : Db) (event : DispatchEvent) : Option Announcement :=
  if event.kind = .awaitingInput then none
  else (db.jobs.rows.find? fun row =>
    row.runId == event.runId && row.nodeId == event.nodeId).map fun row =>
      ⟨row.id, event.runId, event.nodeId, event.kind⟩

/-- The terminal events one step appended. -/
def newEvents (before after : Db) : List Announcement :=
  (after.events.drop before.events.length).filterMap (attributed after)

/-- The step is a transaction of an execution or of a watchdog trip. -/
def workerStep (sys : Sys) : Label → Bool
  | .advance index =>
    match sys.actors[index]?.map Transaction.Actor.role with
    | some (.execution _) | some (.trip _) => true
    | _ => false
  | _ => false

structure Audit where
  sys : Sys := Sys.empty
  settled : List Announcement := []
  outbox : List Announcement := []

def audit (cfg : Config) (state : Audit) (label : Label) : Option Audit :=
  (step cfg state.sys label).map fun after => {
    sys := after
    settled := state.settled ++
      if workerStep state.sys label then newlySettled state.sys.store after.store else []
    outbox := state.outbox ++ newEvents state.sys.store after.store }

def anyAudited (_ : Audit) (_ : Label) : Bool := true

theorem reach_of_audit {cfg : Config} {state : Audit}
    (reached : Reach (audit cfg) anyAudited {} state) :
    Reach (step cfg) anyStep Sys.empty state.sys := by
  induction reached with
  | start => exact .start
  | next label _ _ stepped ih =>
    obtain ⟨after, moved, rfl⟩ := Option.map_eq_some_iff.mp stepped
    exact ih.next label rfl moved

/-! ### One step -/

section Step

variable {job : NodeJob} {change : NodeJob → NodeJob} {db after : Db}

theorem filterMap_eq_singleton {α β : Type} {list : List α} {f : α → Option β} {item : α}
    {value : β} (member : item ∈ list) (distinct : list.Nodup) (hit : f item = some value)
    (miss : ∀ other ∈ list, other ≠ item → f other = none) : list.filterMap f = [value] := by
  obtain ⟨front, back, rfl⟩ := List.append_of_mem member
  have apart := List.nodup_append.mp distinct
  have early : front.filterMap f = [] := by
    refine List.filterMap_eq_nil_iff.mpr fun other present => ?_
    exact miss other (by simp [present]) (apart.2.2 other present item List.mem_cons_self)
  have late : back.filterMap f = [] := by
    refine List.filterMap_eq_nil_iff.mpr fun other present => ?_
    refine miss other (by simp [present]) fun same => ?_
    exact (List.nodup_cons.mp apart.2.1).1 (same ▸ present)
  rw [List.filterMap_append, early, List.filterMap_cons_some hit, late]
  rfl

theorem newEvents_of_silent (silent : Silent db after) : newEvents db after = [] := by
  have length := congrArg List.length silent
  simp only [List.length_map] at length
  simp [newEvents, ← length]

theorem JobStatus.closed_of_announced {status : JobStatus} {kind : EventKind}
    (announced : status.announced = some kind) : status.closed = true := by
  cases status <;> first | rfl | cases announced

theorem any_unsettled {row : NodeJob} (present : row ∈ db.jobs.rows) :
    (db.jobs.rows.any fun old => old.id == row.id && !old.status.closed) = !row.status.closed := by
  rw [Bool.eq_iff_iff, List.any_eq_true]
  constructor
  · rintro ⟨old, member, same⟩
    simp only [Bool.and_eq_true, beq_iff_eq] at same
    rw [← Db.eq_of_id member present same.1]
    exact same.2
  · intro unsettled
    exact ⟨row, present, by simpa using unsettled⟩

/-- Only the worker's own row can newly settle. -/
theorem newlySettled_eq (write : WorkerWrite job change db after) :
    newlySettled db after = db.jobs.rows.filterMap fun row =>
      if row.id = job.id ∧ row.status.closed = false then
        (change row).status.announced.map (Announcement.of row)
      else none := by
  unfold newlySettled
  rw [write.rows, List.filterMap_map]
  apply List.filterMap_congr
  intro row present
  have key := write.keys row
  simp only [NodeJob.key, Prod.mk.injEq] at key
  have same : Announcement.of (change row) = Announcement.of row := by
    funext kind
    simp [Announcement.of, key]
  simp only [Function.comp_apply]
  by_cases mine : row.id = job.id
  · simp only [mine, beq_self_eq_true, if_true, true_and, key.1, same]
    rw [← mine, any_unsettled present]
    by_cases closed : row.status.closed = true <;> simp [closed]
  · simp only [mine, beq_iff_eq, if_false, false_and]
    rw [any_unsettled present]
    by_cases closed : row.status.closed = true
    · simp [closed]
    · cases announced : row.status.announced with
      | none => simp
      | some kind => exact absurd (JobStatus.closed_of_announced announced) closed

theorem newlySettled_of_unsettled (write : WorkerWrite job change db after)
    (unsettled : ∀ row ∈ db.jobs.rows, row.id = job.id → (change row).status.closed = true →
      row.status.closed = true) : newlySettled db after = [] := by
  rw [newlySettled_eq write, List.filterMap_eq_nil_iff]
  intro row present
  split
  · rename_i mine
    cases announced : (change row).status.announced with
    | none => rfl
    | some kind =>
      have closed := unsettled row present mine.1 (JobStatus.closed_of_announced announced)
      simp [mine.2] at closed
  · rfl

theorem newEvents_append {event : DispatchEvent} (appended : after.events = db.events ++ [event]) :
    newEvents db after = [event].filterMap (attributed after) := by
  simp [newEvents, appended]

theorem attributed_of_cell {row : NodeJob} {event : DispatchEvent} (present : row ∈ db.jobs.rows)
    (cell : event.runId = row.runId ∧ event.nodeId = row.nodeId)
    (terminal : event.kind ≠ .awaitingInput) :
    attributed db event = some (Announcement.of row event.kind) := by
  have found : (db.jobs.rows.find? fun other =>
      other.runId == event.runId && other.nodeId == event.nodeId) = some row := by
    cases first : db.jobs.rows.find? fun other =>
        other.runId == event.runId && other.nodeId == event.nodeId with
    | none =>
      have missed := List.find?_eq_none.mp first row present
      simp [cell] at missed
    | some other =>
      have here := List.find?_some first
      simp only [Bool.and_eq_true, beq_iff_eq] at here
      rw [Db.eq_of_cell (List.mem_of_find?_eq_some first) present (here.1.trans cell.1)
        (here.2.trans cell.2)]
  unfold attributed
  rw [if_neg terminal, found]
  simp [Announcement.of, cell]

/-- A worker's transaction settles its row and announces it, or does neither. -/
theorem worker_accounts (write : WorkerWrite job change db after) :
    (newEvents db after = [] ∧ newlySettled db after = []) ∨
    ∃ row ∈ db.jobs.rows, ∃ kind, row.id = job.id ∧ row.status.closed = false ∧
      (change row).status.announced = some kind ∧
      newEvents db after = [Announcement.of row kind] ∧
      newlySettled db after = [Announcement.of row kind] ∧
      ∃ event ∈ after.events, event.runId = row.runId ∧ event.nodeId = row.nodeId ∧
        event.kind = kind := by
  rcases write.emits with ⟨same, unsettled⟩ | ⟨event, appended, kind, unsettled⟩ |
    ⟨event, appended, row, present, mine, unsettled, cell, kind⟩
  · exact .inl ⟨newEvents_of_silent (congrArg _ same), newlySettled_of_unsettled write unsettled⟩
  · refine .inl ⟨?_, newlySettled_of_unsettled write unsettled⟩
    rw [newEvents_append appended]
    simp [attributed, kind]
  · refine .inr ⟨row, present, event.kind, mine, unsettled, kind, ?_, ?_, event, ?_, cell.1, cell.2,
      rfl⟩
    · have terminal : event.kind ≠ .awaitingInput := by
        intro parked
        cases status : (change row).status <;>
          simp [status, JobStatus.announced, parked] at kind
      have key := write.keys row
      simp only [NodeJob.key, Prod.mk.injEq] at key
      have member : change row ∈ after.jobs.rows := by
        rw [write.rows]
        exact List.mem_map.mpr ⟨row, present, by simp [mine]⟩
      have mark := attributed_of_cell member
        ⟨cell.1.trans key.2.1.symm, cell.2.trans key.2.2.symm⟩ terminal
      rw [newEvents_append appended, List.filterMap_cons_some mark]
      simp [Announcement.of, key]
    · rw [newlySettled_eq write]
      refine filterMap_eq_singleton present db.nodup_jobs (by simp [mine, unsettled, kind]) ?_
      intro other inside different
      have apart : other.id ≠ job.id := fun same =>
        different (Db.eq_of_id inside present (same.trans mine.symm))
      simp [apart]
    · rw [appended]
      simp

end Step

/-! ### Whole runs -/

section Runs

variable {cfg : Config}

theorem workerStep_cases {sys : Sys} {label : Label} (worker : workerStep sys label = true) :
    ∃ index path job, label = .advance index ∧ sys.actors[index]? = some path ∧
      (path.role = .execution job ∨ path.role = .trip job) := by
  cases label with
  | advance index =>
    simp only [workerStep] at worker
    split at worker
    · rename_i job found
      obtain ⟨path, present, role⟩ := Option.map_eq_some_iff.mp found
      exact ⟨index, path, job, rfl, present, .inl role⟩
    · rename_i job found
      obtain ⟨path, present, role⟩ := Option.map_eq_some_iff.mp found
      exact ⟨index, path, job, rfl, present, .inr role⟩
    · cases worker
  | _ => cases worker

/-- A step that is no worker's transaction leaves the outbox alone. -/
theorem step_silent {ok : Sys → Label → Bool} {sys after : Sys} {label : Label}
    (reached : Reach (step cfg) ok Sys.empty sys) (stepped : step cfg sys label = some after)
    (idle : workerStep sys label = false) : Silent sys.store after.store := by
  rcases step_cases stepped with ⟨statement, -⟩ | ⟨role, prog, starts, -⟩ |
    ⟨index, rfl, advanced⟩ | ⟨index, error, -, failed⟩ | ⟨index, -, rfl⟩
  · exact statement.backstage.silent
  · rcases starts.store with same | statement | ⟨job, claims⟩
    · rw [same]
      rfl
    · exact statement.backstage.silent
    · exact claims.silent
  · obtain ⟨path, rest, found, moved, -⟩ := Pool.advance_cases advanced
    have disciplined := reach_disciplined reached path (List.mem_of_getElem? found)
    have always : path.prog.Always Backstage := by
      unfold Disciplined at disciplined
      simp only [workerStep, found, Option.map_some] at idle
      cases role : path.role <;> simp_all
    rcases (always.step moved).1 with same | backstage
    · rw [same]
      rfl
    · exact backstage.silent
  · obtain ⟨_, _, _, _, same, _⟩ := Pool.blip_cases failed
    rw [same]
    rfl
  · rfl

/-- What the audit adds in one step. -/
theorem audit_cases {ok : Sys → Label → Bool} {sys after : Sys} {label : Label}
    (reached : Reach (step cfg) ok Sys.empty sys) (stepped : step cfg sys label = some after) :
    (newEvents sys.store after.store =
        if workerStep sys label then newlySettled sys.store after.store else []) ∧
    (∀ event ∈ sys.store.events, ∃ kept ∈ after.store.events, kept.ident = event.ident) ∧
    (newEvents sys.store after.store = [] ∨
      ∃ old ∈ sys.store.jobs.rows, ∃ new ∈ after.store.jobs.rows, ∃ kind, new.key = old.key ∧
        old.status.closed = false ∧ new.status.announced = some kind ∧
        newEvents sys.store after.store = [Announcement.of old kind] ∧
        ∃ event ∈ after.store.events, event.runId = old.runId ∧ event.nodeId = old.nodeId ∧
          event.kind = kind) := by
  cases worker : workerStep sys label with
  | false =>
    have silent := step_silent reached stepped worker
    refine ⟨by simp [newEvents_of_silent silent], fun event member => ?_,
      .inl (newEvents_of_silent silent)⟩
    have listed : event.ident ∈ after.store.events.map DispatchEvent.ident := by
      rw [silent]
      exact List.mem_map_of_mem member
    exact List.mem_map.mp listed
  | true =>
    obtain ⟨index, path, job, rfl, acting, role⟩ := workerStep_cases worker
    obtain ⟨⟨change, write⟩, -, -⟩ := worker_advance reached acting role stepped
    have kept : ∀ event ∈ sys.store.events,
        ∃ kept ∈ after.store.events, kept.ident = event.ident := by
      intro event member
      refine ⟨event, ?_, rfl⟩
      rcases write.emits with ⟨same, -⟩ | ⟨_, appended, -, -⟩ | ⟨_, appended, -, -, -, -, -, -⟩
      · exact same ▸ member
      · simp [appended, member]
      · simp [appended, member]
    rcases worker_accounts write with ⟨events, settled⟩ |
      ⟨old, present, kind, mine, unsettled, announced, events, settled, written⟩
    · exact ⟨by simp [events, settled], kept, .inl events⟩
    · refine ⟨by simp [events, settled], kept, .inr ⟨old, present, change old, ?_, kind,
        write.keys old, unsettled, announced, events, written⟩⟩
      rw [write.rows]
      exact List.mem_map.mpr ⟨old, present, by simp [mine]⟩

/-- The row of this id, while it exists, has this terminal status. -/
def SettledAs (note : Announcement) (db : Db) : Prop :=
  note.jobId < db.nextJob ∧ ∀ row ∈ db.jobs.rows, row.id = note.jobId →
    row.status.announced = some note.kind ∧ row.runId = note.runId ∧ row.nodeId = note.nodeId

theorem SettledAs.later {note : Announcement} {before after : Db}
    (evolves : Evolves cfg before after) (now : SettledAs note before) : SettledAs note after := by
  obtain ⟨used, settled⟩ := now
  refine ⟨used.trans_le evolves.sequence, fun row member same => ?_⟩
  rcases evolves.rows row member with ⟨old, present, moved⟩ | ⟨fresh, -, -⟩
  · obtain ⟨announced, run, node⟩ := settled old present (moved.id.symm.trans same)
    have final : old.status.final = true := by
      simp [JobStatus.final, JobStatus.closed_of_announced announced]
    rw [(moved.settled final).1, moved.runId, moved.nodeId]
    exact ⟨announced, run, node⟩
  · omega

/-- The invariant of an audited run. -/
structure Accounted (state : Audit) : Prop where
  same : state.outbox = state.settled
  once : (state.outbox.map Announcement.jobId).Nodup
  settled : ∀ note ∈ state.outbox, SettledAs note state.sys.store
  announced : ∀ note ∈ state.outbox, ∃ event ∈ state.sys.store.events,
    event.runId = note.runId ∧ event.nodeId = note.nodeId ∧ event.kind = note.kind

theorem audit_accounted {state after : Audit} {label : Label}
    (reached : Reach (step cfg) anyStep Sys.empty state.sys) (accounted : Accounted state)
    (stepped : audit cfg state label = some after) : Accounted after := by
  obtain ⟨sys, moved, rfl⟩ := Option.map_eq_some_iff.mp stepped
  have wellformed := (reach_wellformed wellformed_empty reached).2
  obtain ⟨path, wellformed'⟩ := step_wellformed wellformed moved
  obtain ⟨agree, kept, change⟩ := audit_cases reached moved
  have settled : ∀ note ∈ state.outbox, SettledAs note sys.store := fun note member =>
    stays (SettledAs note) (fun _ _ => SettledAs.later) path (accounted.settled note member)
  have announced : ∀ note ∈ state.outbox, ∃ event ∈ sys.store.events,
      event.runId = note.runId ∧ event.nodeId = note.nodeId ∧ event.kind = note.kind := by
    intro note member
    obtain ⟨event, present, run, node, kind⟩ := accounted.announced note member
    obtain ⟨other, inside, ident⟩ := kept event present
    simp only [DispatchEvent.ident, Prod.mk.injEq] at ident
    exact ⟨other, inside, ident.2.1.trans run, ident.2.2.1.trans node, ident.2.2.2.trans kind⟩
  rcases change with nothing | ⟨old, present, new, inside, kind, same, unsettled, status, one, event⟩
  · rw [nothing] at agree
    refine ⟨?_, ?_, ?_, ?_⟩ <;> simp only [nothing, ← agree, List.append_nil]
    · exact accounted.same
    · exact accounted.once
    · exact settled
    · exact announced
  · have fresh : ∀ note ∈ state.outbox, note.jobId ≠ old.id := by
      intro note member mine
      have closed := ((accounted.settled note member).2 old present mine.symm).1
      simp [JobStatus.closed_of_announced closed] at unsettled
    have note : SettledAs (Announcement.of old kind) sys.store := by
      simp only [NodeJob.key, Prod.mk.injEq] at same
      refine ⟨?_, fun row member mine => ?_⟩
      · have below := wellformed'.coherent.bounded new inside
        rw [same.1] at below
        exact below
      · rw [Db.eq_of_id member inside (mine.trans same.1.symm)]
        exact ⟨status, same.2.1, same.2.2⟩
    refine ⟨?_, ?_, ?_, ?_⟩ <;> simp only [← agree, one]
    · rw [accounted.same]
    · rw [List.map_append, List.nodup_append]
      refine ⟨accounted.once, List.nodup_singleton _, fun first member second last => ?_⟩
      obtain ⟨note, listed, rfl⟩ := List.mem_map.mp member
      simp only [List.map_cons, List.map_nil, List.mem_singleton] at last
      rw [last]
      exact fresh note listed
    · intro other member
      rcases List.mem_append.mp member with listed | last
      · exact settled other listed
      · rw [List.mem_singleton.mp last]
        exact note
    · intro other member
      rcases List.mem_append.mp member with listed | last
      · exact announced other listed
      · rw [List.mem_singleton.mp last]
        exact event

theorem reach_accounted {state : Audit} (reached : Reach (audit cfg) anyAudited {} state) :
    Accounted state := by
  induction reached with
  | start => exact ⟨rfl, List.nodup_nil, by simp, by simp⟩
  | next label before _ stepped ih => exact audit_accounted (reach_of_audit before) ih stepped

/-- Outbox exactly-once. Over any run, at most one terminal event is committed for
a row. There is one exactly when a worker's path made the row terminal, of the
same kind; it stays in the outbox, and the row, while it exists, keeps the status
the event announces. -/
theorem outbox_exactly_once {state : Audit} (reached : Reach (audit cfg) anyAudited {} state)
    (jobId : Nat) :
    (state.outbox.filter fun note => note.jobId = jobId) =
        (state.settled.filter fun note => note.jobId = jobId) ∧
      (state.outbox.filter fun note => note.jobId = jobId).length ≤ 1 ∧
      ∀ note ∈ state.settled, note.jobId = jobId →
        (∃ event ∈ state.sys.store.events, event.runId = note.runId ∧
          event.nodeId = note.nodeId ∧ event.kind = note.kind) ∧
        ∀ row ∈ state.sys.store.jobs.rows, row.id = jobId →
          row.status.announced = some note.kind ∧ row.runId = note.runId ∧
            row.nodeId = note.nodeId := by
  have accounted := reach_accounted reached
  refine ⟨by rw [accounted.same], ?_, fun note member mine => ?_⟩
  · have distinct : ((state.outbox.filter fun note => note.jobId = jobId).map
        Announcement.jobId).Nodup := accounted.once.sublist (List.filter_sublist.map _)
    have single : ∀ id ∈ (state.outbox.filter fun note => note.jobId = jobId).map
        Announcement.jobId, id = jobId := by
      intro id member
      obtain ⟨note, listed, rfl⟩ := List.mem_map.mp member
      simpa using (List.mem_filter.mp listed).2
    rw [← List.length_map Announcement.jobId]
    rw [List.eq_replicate_of_mem single, List.nodup_replicate] at distinct
    exact distinct
  · rw [← accounted.same] at member
    exact ⟨accounted.announced note member, mine ▸ (accounted.settled note member).2⟩

theorem completed_row_announced : ∃ state : Audit,
    state.settled.map Announcement.jobId = [1, 2] ∧
      (state.outbox.filter fun note => note.jobId = 1).length ≤ 1 := by
  have able : (follow (audit Sample.config) anyAudited {} Sample.completed).isSome = true := by
    decide
  refine ⟨_, ?_, (outbox_exactly_once (Reach.follow_getD Sample.completed able) 1).2.1⟩
  decide

end Runs

end QueueWorkflows
