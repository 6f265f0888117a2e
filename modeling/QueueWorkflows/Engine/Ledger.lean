import QueueWorkflows.Base.Closing
import QueueWorkflows.Engine.Outbox
import Mathlib.Data.List.Flatten

/-! The dispatch events over whole runs: who appends one, who settles one, and that
the drains in flight have their batches to themselves. -/

namespace QueueWorkflows

open Transaction (Prog Pool Reach)
open Transaction.Prog (Always Closes commit ofExcept)

def SameOutbox (db after : Db) : Prop :=
  after.events = db.events ∧ after.nextEvent = db.nextEvent

theorem sameOutbox_frame : Frame (fun _ => True) SameOutbox where
  refl _ := ⟨rfl, rfl⟩
  insert _ _ _ _ _ := ⟨rfl, rfl⟩
  update _ _ _ _ _ := ⟨rfl, rfl⟩
  delete _ _ := ⟨rfl, rfl⟩
  submissions _ _ := ⟨rfl, rfl⟩
  updateRun _ _ _ _ _ done := by
    cases done
    exact ⟨rfl, rfl⟩

/-- At most one event is added, unprocessed and under the next id. -/
inductive Appends (db after : Db) : Prop
  | nothing (same : SameOutbox db after)
  | event (event : DispatchEvent) (appended : after.events = db.events ++ [event])
      (numbered : event.id = db.nextEvent) (next : after.nextEvent = db.nextEvent + 1)
      (unprocessed : event.processedAt = none)

theorem appends_markWithEvent {jobId : Nat} {runId nodeId : String} {kind : EventKind}
    {outcome result : Executor.Outcome} {marking : Txn (Option NodeJob)}
    {change : NodeJob → NodeJob} {keeps : ∀ row, (change row).key = row.key} {db after : Db}
    (done : Executor.markWithEvent marking runId nodeId kind outcome db = .ok (result, after))
    (marks : marking db = NodeQueue.mark jobId change keeps db) : Appends db after := by
  rcases markWithEvent_cases done with ⟨-, unmarked⟩ | ⟨new, mid, marked, -, written⟩
  · obtain ⟨rfl, -⟩ := mark_cases (marks.symm.trans unmarked)
    exact .nothing ⟨rfl, rfl⟩
  · obtain ⟨rfl, -⟩ := mark_cases (marks.symm.trans marked)
    cases written
    exact .event _ rfl rfl rfl rfl

theorem appends_failJobInTxn {jobId : Nat} {error : String} {db after : Db}
    (done : ClaimWorker.failJobInTxn jobId error db = .ok ((), after)) : Appends db after := by
  rcases failJobInTxn_cases done with unmarked | ⟨row, mid, marked, written⟩
  · obtain ⟨rfl, -⟩ := mark_cases unmarked
    exact .nothing ⟨rfl, rfl⟩
  · obtain ⟨rfl, -⟩ := mark_cases marked
    cases written
    exact .event _ rfl rfl rfl rfl

theorem appends_frame {cfg : Config} (job : NodeJob) : WorkerFrame cfg job fun _ => Appends where
  reads _ _ _ := .nothing ⟨rfl, rfl⟩
  resolves _ _ _ done := by
    cases done
    exact .nothing ⟨rfl, rfl⟩
  requeues _ _ _ _ _ done := by
    cases done
    exact .nothing ⟨rfl, rfl⟩
  completes _ _ _ _ done := appends_markWithEvent done rfl
  fails _ _ _ _ done := appends_markWithEvent done rfl
  trips _ _ _ done := appends_failJobInTxn done
  parks _ _ done := by
    cases done
    exact .event _ rfl rfl rfl rfl

/-- Only events of the given ids are touched, and none is opened again. -/
structure SettlesOnly (ids : List Nat) (db after : Db) : Prop where
  next : after.nextEvent = db.nextEvent
  events : ∃ change : DispatchEvent → DispatchEvent, after.events = db.events.map change ∧
    ∀ event, (change event).ident = event.ident ∧
      ((change event).processedAt = none → event.processedAt = none) ∧
      (event.id ∉ ids → change event = event)

theorem SettlesOnly.refl (ids : List Nat) (db : Db) : SettlesOnly ids db db :=
  ⟨rfl, id, by simp, fun _ => ⟨rfl, id, fun _ => rfl⟩⟩

theorem SettlesOnly.trans {ids : List Nat} {db mid after : Db} (first : SettlesOnly ids db mid)
    (second : SettlesOnly ids mid after) : SettlesOnly ids db after := by
  obtain ⟨next₁, change₁, events₁, settles₁⟩ := first
  obtain ⟨next₂, change₂, events₂, settles₂⟩ := second
  refine ⟨next₂.trans next₁, change₂ ∘ change₁, by rw [events₂, events₁, List.map_map], ?_⟩
  intro event
  obtain ⟨ident₁, opens₁, others₁⟩ := settles₁ event
  obtain ⟨ident₂, opens₂, others₂⟩ := settles₂ (change₁ event)
  refine ⟨ident₂.trans ident₁, fun unprocessed => opens₁ (opens₂ unprocessed), fun apart => ?_⟩
  have same := others₁ apart
  rw [same] at others₂
  rw [Function.comp_apply, same, others₂ apart]

theorem settlesOnly_updateEvent {ids : List Nat} {eventId : Nat} (inside : eventId ∈ ids)
    {change : DispatchEvent → DispatchEvent} (same : ∀ event, (change event).ident = event.ident)
    (opens : ∀ event, (change event).processedAt = none → event.processedAt = none) (db : Db) :
    SettlesOnly ids db (NodePool.updateEvent eventId change db) := by
  refine ⟨rfl, fun event => if event.id == eventId then change event else event, rfl, ?_⟩
  intro event
  by_cases mine : event.id = eventId
  · simp only [mine, beq_self_eq_true, if_true]
    exact ⟨same event, opens event, fun outside => absurd inside outside⟩
  · simp [mine]

theorem settlesOnly_markProcessed {ids : List Nat} {eventId : Nat} (inside : eventId ∈ ids)
    (db : Db) : SettlesOnly ids db (NodePool.markProcessed eventId db) := by
  unfold NodePool.markProcessed
  apply settlesOnly_updateEvent inside
  · intro event
    rfl
  · intro event impossible
    cases impossible

theorem settlesOnly_settleEvent {ids : List Nat} {handled : NodePool.Handled}
    (inside : handled.event.id ∈ ids) (db : Db) :
    SettlesOnly ids db (NodePool.settleEvent db handled) := by
  cases handled with
  | succeeded event => exact settlesOnly_markProcessed inside db
  | raised event error =>
    simp only [NodePool.settleEvent]
    generalize counts : (fun row : DispatchEvent => { row with
      attempts := row.attempts + 1
      error := some (String.ofList (error.describe.toList.take 8000)) }) = count
    have counted : SettlesOnly ids db (NodePool.updateEvent event.id count db) := by
      subst counts
      apply settlesOnly_updateEvent inside
      · intro row
        rfl
      · intro row unprocessed
        exact unprocessed
    split
    · have poisoned : SettlesOnly ids db
          (NodePool.poisonRun event error (NodePool.updateEvent event.id count db)) :=
        ⟨counted.next, counted.events⟩
      exact poisoned.trans (settlesOnly_markProcessed inside _)
    · exact counted

theorem settlesOnly_foldl {ids : List Nat} {handled : List NodePool.Handled}
    (inside : ∀ one ∈ handled, one.event.id ∈ ids) (db : Db) :
    SettlesOnly ids db (handled.foldl NodePool.settleEvent db) := by
  induction handled generalizing db with
  | nil => exact .refl ids db
  | cons first rest ih =>
    refine (settlesOnly_settleEvent (inside first List.mem_cons_self) db).trans ?_
    exact ih (fun one member => inside one (List.mem_cons_of_mem _ member)) _

/-! ### Paths -/

section Paths

variable {cfg : Config} {host : Host} {fuel : Nat}

theorem closes_handleEvent {event : DispatchEvent} :
    (NodePool.handleEvent cfg host fuel event).Closes SameOutbox (fun _ _ => False)
      fun outcome => ∀ handled, outcome = .ok handled → handled.event = event := by
  have calls : (NodePool.callback cfg host fuel event).Closes SameOutbox (fun _ _ => False)
      fun _ => True := .of_always (sameOutbox_frame.callback trivial)
  have succeeds : (do NodePool.callback cfg host fuel event; return .succeeded event :
      Program NodePool.Handled).Closes SameOutbox (fun _ _ => False)
      fun outcome => ∀ handled, outcome = .ok handled → handled.event = event := by
    refine calls.bind (fun _ _ handled returned => ?_) fun _ _ _ raised => nomatch raised
    cases returned
    rfl
  refine succeeds.handle (fun _ kept => kept) fun error handled returned => ?_
  cases returned
  rfl

theorem closes_handleEvents {batch : List DispatchEvent} {locked : List String} :
    (NodePool.handleEvents cfg host fuel locked batch).Closes SameOutbox (fun _ _ => False)
      fun outcome => ∀ handled, outcome = .ok handled →
        handled.map NodePool.Handled.event = batch := by
  induction batch generalizing locked with
  | nil =>
    intro handled returned
    cases returned
    rfl
  | cons event rest ih =>
    have locks (handled : NodePool.Handled) : (NodePool.lockRun handled).Closes SameOutbox
        (fun _ _ => False) fun _ => True := .of_always sameOutbox_frame.lockRun
    refine (closes_handleEvent.awaiting _).bind (fun first mine => ?_)
      fun _ _ _ raised => nomatch raised
    refine (locks first).bind (fun _ _ => ?_) fun _ _ _ raised => nomatch raised
    refine ih.bind (fun others theirs handled returned => ?_) fun _ _ _ raised => nomatch raised
    cases returned
    rw [List.map_cons, mine first rfl, theirs others rfl]

/-- The bookkeeping of a whole batch. -/
def Settles (batch : List DispatchEvent) (db after : Db) : Prop :=
  ∃ handled : List NodePool.Handled, handled.map NodePool.Handled.event = batch ∧
    after = handled.foldl NodePool.settleEvent db

theorem Settles.only {batch : List DispatchEvent} {db after : Db} (settles : Settles batch db after) :
    SettlesOnly (batch.map DispatchEvent.id) db after := by
  obtain ⟨handled, rfl, rfl⟩ := settles
  refine settlesOnly_foldl (fun one member => ?_) db
  exact List.mem_map_of_mem (List.mem_map_of_mem member)

/-- A drain leaves the outbox alone until its last transaction, which settles its batch. -/
theorem closes_drain {batch : List DispatchEvent} :
    (NodePool.drainDispatchEvents cfg host fuel batch).Closes SameOutbox (Settles batch)
      fun _ => True := by
  refine closes_handleEvents.bind (fun handled theirs => ?_) fun _ _ => trivial
  refine ⟨fun db value after done => .inr ?_, fun _ => trivial⟩
  cases done
  exact ⟨⟨handled, theirs handled rfl, rfl⟩, rfl⟩

end Paths

/-! ### The system -/

section System

variable {cfg : Config} {sys after : Sys} {label : Label}

/-- What a path may do to the outbox. -/
def Books (path : Path) (_ : Db) : Prop :=
  match path.role with
  | .execution _ | .trip _ => path.prog.Always Appends
  | .drain batch => path.prog.Closes SameOutbox (SettlesOnly (batch.map DispatchEvent.id))
      fun _ => True
  | _ => path.prog.Always SameOutbox

theorem books_rule : Pool.Rule (fun _ _ => True) Books where
  stable held _ := held
  step {role prog rest state after} held stepped := by
    refine ⟨trivial, ?_⟩
    cases role with
    | drain batch => exact (Closes.step held stepped).1
    | _ => exact (Always.step held stepped).2
  blip {role prog rest state error} held failed := by
    cases role with
    | drain batch => exact Closes.blip held failed
    | _ => exact Always.blip held failed

theorem starts_books {db : Db} {role : Role} {prog : Program Unit}
    (starts : Starts cfg sys label db role prog) : Books ⟨role, prog⟩ db := by
  cases starts with
  | restart => exact sameOutbox_frame.restartRun trivial
  | expand => exact sameOutbox_frame.expandRuns fun _ _ => trivial
  | drain => exact closes_drain.weaken fun _ _ => Settles.only
  | sweep => exact sameOutbox_frame.sweepStuckRuns fun _ _ => trivial
  | poll => exact sameOutbox_frame.processRows fun _ _ => trivial
  | claimCpu => exact (appends_frame _).runNode
  | claimGpu => exact (appends_frame _).runNode
  | redeliver => exact (appends_frame _).runNode
  | trip => exact (appends_frame _).watchdogTrip

theorem reach_books {ok : Sys → Label → Bool} (reached : Reach (step cfg) ok Sys.empty sys) :
    sys.All Books := by
  refine reached.invariant (by simp [Sys.empty, Pool.All]) fun state label after all _ stepped => ?_
  exact (step_all books_rule (fun _ => trivial) (fun _ => trivial) (fun _ _ => trivial)
    (fun _ _ starts _ => starts_books starts) all stepped).2

theorem Statement.sameOutbox {before after : Db} (statement : Statement cfg before after) :
    SameOutbox before after := by
  cases statement with
  | insertRun run done =>
    simp only [QueueWorkflows.insertRun] at done
    split at done <;> cases done
    exact ⟨rfl, rfl⟩
  | enqueuePatch new outside id done => exact sameOutbox_frame.enqueueNodeJob done
  | _ =>
    rename_i done
    cases done
    exact ⟨rfl, rfl⟩

theorem Claims.sameOutbox {before after : Db} {job : NodeJob} (claims : Claims before after job) :
    SameOutbox before after := by
  obtain ⟨claim, queue, capability, rank, done⟩ := claims
  obtain ⟨_, _, _, _, rfl⟩ := NodeQueue.claimNext_cases done
  exact ⟨rfl, rfl⟩

/-- The last transaction of a drain. -/
structure Settling (sys after : Sys) (index : Nat) (batch : List DispatchEvent) : Prop where
  stands : ∃ path, sys.actors[index]? = some path ∧ path.role = .drain batch ∧
    path.prog.inFlight = true
  settles : SettlesOnly (batch.map DispatchEvent.id) sys.store after.store
  ends : ∃ rest : Program Unit, rest.inFlight = false ∧
    after.actors = sys.actors.set index ⟨.drain batch, rest⟩

/-- A step appends at most one event, or is the last transaction of a drain. -/
theorem step_outbox {ok : Sys → Label → Bool} (reached : Reach (step cfg) ok Sys.empty sys)
    (stepped : step cfg sys label = some after) :
    Appends sys.store after.store ∨
      ∃ index batch, label = .advance index ∧ Settling sys after index batch := by
  have same (store : after.store = sys.store) : Appends sys.store after.store :=
    .nothing (store ▸ ⟨rfl, rfl⟩)
  rcases step_cases stepped with ⟨statement, -⟩ | ⟨role, prog, starts, -⟩ |
    ⟨index, rfl, advanced⟩ | ⟨index, error, -, failed⟩ | ⟨index, -, rfl⟩
  · exact .inl (.nothing statement.sameOutbox)
  · rcases starts.store with store | statement | ⟨job, claims⟩
    · exact .inl (same store)
    · exact .inl (.nothing statement.sameOutbox)
    · exact .inl (.nothing claims.sameOutbox)
  · obtain ⟨path, rest, found, moved, actors⟩ := Pool.advance_cases advanced
    have books := reach_books reached path (List.mem_of_getElem? found)
    unfold Books at books
    split at books
    · exact .inl ((books.step moved).1.elim same id)
    · exact .inl ((books.step moved).1.elim same id)
    · rename_i batch role
      rcases (Closes.step books moved).2 with store | kept | ⟨settles, ended⟩
      · exact .inl (same store)
      · exact .inl (.nothing kept)
      · refine .inr ⟨index, batch, rfl, ⟨path, found, role, Prog.inFlight_of_step moved⟩, settles,
          rest, ended, ?_⟩
        rw [actors, role]
    · exact .inl ((books.step moved).1.elim same .nothing)
  · obtain ⟨_, _, _, _, store, _⟩ := Pool.blip_cases failed
    exact .inl (same store)
  · exact .inl (same rfl)

/-- The events a path holds locked. -/
def Path.locks (path : Path) : List Nat :=
  match path.role with
  | .drain batch => if path.prog.inFlight then batch.map DispatchEvent.id else []
  | _ => []

theorem lockedEvents_eq (sys : Sys) : sys.lockedEvents = sys.actors.flatMap Path.locks := rfl

theorem locks_sublist {role : Role} {prog rest : Program Unit} (flying : prog.inFlight = true) :
    (Path.locks ⟨role, rest⟩).Sublist (Path.locks ⟨role, prog⟩) := by
  cases role with
  | drain batch =>
    simp only [Path.locks, flying, if_true]
    split
    · exact .refl _
    · exact List.nil_sublist _
  | _ => exact .refl _

theorem locks_set {paths : List Path} {index : Nat} {old new : Path}
    (found : paths[index]? = some old) (fewer : (Path.locks new).Sublist (Path.locks old)) :
    ((paths.set index new).flatMap Path.locks).Sublist (paths.flatMap Path.locks) := by
  induction paths generalizing index with
  | nil => cases found
  | cons first rest ih =>
    cases index with
    | zero =>
      cases found
      exact fewer.append (.refl _)
    | succ index => exact (List.Sublist.refl _).append (ih found)

/-- Two paths in flight hold no event in common. -/
theorem locks_apart {paths : List Path} (apart : (paths.flatMap Path.locks).Nodup)
    {first second : Nat} (different : first ≠ second) {one other : Path}
    (found : paths[first]? = some one) (also : paths[second]? = some other) {eventId : Nat}
    (mine : eventId ∈ Path.locks one) : eventId ∉ Path.locks other := by
  have pairs := (List.nodup_flatMap.mp apart).2
  obtain ⟨inside, rfl⟩ := List.getElem?_eq_some_iff.mp found
  obtain ⟨within, rfl⟩ := List.getElem?_eq_some_iff.mp also
  intro theirs
  rcases Nat.lt_or_gt_of_ne different with before | behind
  · exact List.pairwise_iff_getElem.mp pairs first second inside within before mine theirs
  · exact List.pairwise_iff_getElem.mp pairs second first within inside behind theirs mine

/-- The books of a reachable state. -/
structure Ledger (sys : Sys) : Prop where
  below : ∀ event ∈ sys.store.events, event.id < sys.store.nextEvent
  distinct : (sys.store.events.map DispatchEvent.id).Nodup
  apart : sys.lockedEvents.Nodup
  held : ∀ path ∈ sys.actors, ∀ batch, path.role = .drain batch → path.prog.inFlight = true →
    ∀ event ∈ batch, ∃ row ∈ sys.store.events, row.ident = event.ident ∧ row.processedAt = none

theorem ledger_empty : Ledger Sys.empty :=
  ⟨fun _ member => (nomatch member), .nil, .nil, fun _ member => (nomatch member)⟩

theorem SettlesOnly.ids {ids : List Nat} {db after : Db} (settles : SettlesOnly ids db after) :
    after.events.map DispatchEvent.id = db.events.map DispatchEvent.id := by
  obtain ⟨-, change, events, kept⟩ := settles
  rw [events, List.map_map]
  exact List.map_congr_left fun event _ => congrArg Prod.fst (kept event).1

theorem ledger_numbers {ok : Sys → Label → Bool} (reached : Reach (step cfg) ok Sys.empty sys)
    (ledger : Ledger sys) (stepped : step cfg sys label = some after) :
    (∀ event ∈ after.store.events, event.id < after.store.nextEvent) ∧
      (after.store.events.map DispatchEvent.id).Nodup := by
  rcases step_outbox reached stepped with (⟨same, next⟩ | ⟨event, appended, numbered, next, -⟩) |
    ⟨index, batch, -, settling⟩
  · rw [same, next]
    exact ⟨ledger.below, ledger.distinct⟩
  · rw [appended, next]
    constructor
    · intro old member
      rcases List.mem_append.mp member with present | last
      · exact (ledger.below old present).trans (Nat.lt_succ_self _)
      · rw [List.mem_singleton.mp last, numbered]
        exact Nat.lt_succ_self _
    · rw [List.map_append]
      refine ledger.distinct.append (List.nodup_singleton _) ?_
      intro eventId old last
      obtain ⟨row, present, rfl⟩ := List.mem_map.mp old
      have same : row.id = event.id := by simpa using last
      have bound := ledger.below row present
      omega
  · refine ⟨?_, by rw [settling.settles.ids]; exact ledger.distinct⟩
    intro event member
    have listed : event.id ∈ sys.store.events.map DispatchEvent.id := by
      rw [← settling.settles.ids]
      exact List.mem_map_of_mem member
    obtain ⟨old, present, same⟩ := List.mem_map.mp listed
    rw [settling.settles.next, ← same]
    exact ledger.below old present

theorem nodup_drainBatch {locked : List Nat} {db : Db}
    (distinct : (db.events.map DispatchEvent.id).Nodup) :
    ((NodePool.drainBatch cfg locked db).map DispatchEvent.id).Nodup := by
  refine distinct.sublist (List.Sublist.map _ ?_)
  exact (List.take_sublist _ _).trans List.filter_sublist

theorem mem_drainBatch {locked : List Nat} {db : Db} {event : DispatchEvent}
    (member : event ∈ NodePool.drainBatch cfg locked db) :
    event ∈ db.events ∧ event.processedAt = none ∧ event.id ∉ locked := by
  have listed := List.mem_filter.mp (List.mem_of_mem_take member)
  simp only [Bool.and_eq_true, Option.isNone_iff_eq_none, Bool.not_eq_true',
    List.contains_eq_mem, decide_eq_false_iff_not] at listed
  exact ⟨listed.1, listed.2.1.1, listed.2.1.2⟩

theorem starts_locks {db : Db} {role : Role} {prog : Program Unit}
    (distinct : (sys.store.events.map DispatchEvent.id).Nodup)
    (starts : Starts cfg sys label db role prog) :
    (Path.locks ⟨role, prog⟩).Nodup ∧ ∀ eventId ∈ Path.locks ⟨role, prog⟩,
      eventId ∉ sys.lockedEvents := by
  cases starts with
  | drain host fuel =>
    simp only [Path.locks]
    split
    · refine ⟨nodup_drainBatch distinct, fun eventId member => ?_⟩
      obtain ⟨event, listed, rfl⟩ := List.mem_map.mp member
      exact (mem_drainBatch listed).2.2
    · exact ⟨.nil, fun _ member => nomatch member⟩
  | _ => exact ⟨.nil, fun _ member => nomatch member⟩

theorem ledger_apart (ledger : Ledger sys) (stepped : step cfg sys label = some after) :
    after.lockedEvents.Nodup := by
  have apart := ledger.apart
  rw [lockedEvents_eq] at apart ⊢
  rcases step_cases stepped with ⟨-, same⟩ | ⟨role, prog, starts, spawned⟩ |
    ⟨index, -, advanced⟩ | ⟨index, error, -, failed⟩ | ⟨index, -, rfl⟩
  · rw [same]
    exact apart
  · obtain ⟨new, foreign⟩ := starts_locks ledger.distinct starts
    rw [spawned, List.flatMap_append]
    refine apart.append (by simpa using new) ?_
    intro eventId old last
    exact foreign eventId (by simpa using last) old
  · obtain ⟨path, rest, found, moved, actors⟩ := Pool.advance_cases advanced
    rw [actors]
    exact apart.sublist (locks_set found (locks_sublist (Prog.inFlight_of_step moved)))
  · obtain ⟨path, rest, found, moved, -, actors⟩ := Pool.blip_cases failed
    rw [actors]
    exact apart.sublist (locks_set found (locks_sublist (Prog.inFlight_of_blip moved)))
  · exact apart.sublist ((List.eraseIdx_sublist _ _).flatMap _)

/-- A path in flight was in flight before the step, or begins with it. -/
theorem path_origin {path : Path} (stepped : step cfg sys label = some after)
    (member : path ∈ after.actors) (flying : path.prog.inFlight = true) :
    (∃ old ∈ sys.actors, old.role = path.role ∧ old.prog.inFlight = true) ∨
      Starts cfg sys label after.store path.role path.prog := by
  rcases step_cases stepped with ⟨-, same⟩ | ⟨role, prog, starts, spawned⟩ |
    ⟨index, -, advanced⟩ | ⟨index, error, -, failed⟩ | ⟨index, -, rfl⟩
  · exact .inl ⟨path, same ▸ member, rfl, flying⟩
  · rw [spawned] at member
    rcases List.mem_append.mp member with old | last
    · exact .inl ⟨path, old, rfl, flying⟩
    · rw [List.mem_singleton.mp last]
      exact .inr starts
  · obtain ⟨actor, rest, found, moved, actors⟩ := Pool.advance_cases advanced
    rw [actors] at member
    rcases List.mem_or_eq_of_mem_set member with old | rfl
    · exact .inl ⟨path, old, rfl, flying⟩
    · exact .inl ⟨actor, List.mem_of_getElem? found, rfl, Prog.inFlight_of_step moved⟩
  · obtain ⟨actor, rest, found, moved, -, actors⟩ := Pool.blip_cases failed
    rw [actors] at member
    rcases List.mem_or_eq_of_mem_set member with old | rfl
    · exact .inl ⟨path, old, rfl, flying⟩
    · exact .inl ⟨actor, List.mem_of_getElem? found, rfl, Prog.inFlight_of_blip moved⟩
  · exact .inl ⟨path, List.mem_of_mem_eraseIdx member, rfl, flying⟩

theorem starts_drawn {db : Db} {prog : Program Unit} {batch : List DispatchEvent}
    (starts : Starts cfg sys label db (.drain batch) prog) {event : DispatchEvent}
    (inside : event ∈ batch) : event ∈ db.events ∧ event.processedAt = none := by
  cases starts
  exact ⟨(mem_drainBatch inside).1, (mem_drainBatch inside).2.1⟩

/-- A step leaves the rows alone that a drain in flight has locked. -/
theorem locked_rows_stay {ok : Sys → Label → Bool} (reached : Reach (step cfg) ok Sys.empty sys)
    (ledger : Ledger sys) (stepped : step cfg sys label = some after) {path : Path}
    (member : path ∈ after.actors) {batch : List DispatchEvent} (role : path.role = .drain batch)
    (flying : path.prog.inFlight = true) :
    Starts cfg sys label after.store (.drain batch) path.prog ∨
      ∃ old ∈ sys.actors, old.role = .drain batch ∧ old.prog.inFlight = true ∧
        ∀ row ∈ sys.store.events, row.id ∈ batch.map DispatchEvent.id →
          row ∈ after.store.events := by
  rcases step_outbox reached stepped with appends | ⟨index, settled, -, settling⟩
  · have kept : ∀ row ∈ sys.store.events, row ∈ after.store.events := by
      intro row present
      rcases appends with ⟨same, -⟩ | ⟨new, appended, -, -, -⟩
      · exact same ▸ present
      · rw [appended]
        exact List.mem_append_left _ present
    rcases path_origin stepped member flying with ⟨old, present, same, before⟩ | starts
    · exact .inr ⟨old, present, same.trans role, before, fun row stored _ => kept row stored⟩
    · exact .inl (role ▸ starts)
  · obtain ⟨actor, found, drains, active⟩ := settling.stands
    obtain ⟨rest, ended, actors⟩ := settling.ends
    rw [actors] at member
    rcases Pool.mem_set_cases member with rfl | ⟨other, different, stands⟩
    · rw [ended] at flying
      cases flying
    · refine .inr ⟨path, List.mem_of_getElem? stands, role, flying, fun row stored locked => ?_⟩
      have mine : row.id ∈ Path.locks path := by
        simp only [Path.locks, role, flying, if_true]
        exact locked
      have apart := locks_apart ledger.apart different stands found mine
      simp only [Path.locks, drains, active, if_true] at apart
      obtain ⟨-, change, events, keeps⟩ := settling.settles
      rw [events]
      exact List.mem_map.mpr ⟨row, stored, (keeps row).2.2 apart⟩

theorem ledger_held {ok : Sys → Label → Bool} (reached : Reach (step cfg) ok Sys.empty sys)
    (ledger : Ledger sys) (stepped : step cfg sys label = some after) {path : Path}
    (member : path ∈ after.actors) {batch : List DispatchEvent} (role : path.role = .drain batch)
    (flying : path.prog.inFlight = true) {event : DispatchEvent} (inside : event ∈ batch) :
    ∃ row ∈ after.store.events, row.ident = event.ident ∧ row.processedAt = none := by
  rcases locked_rows_stay reached ledger stepped member role flying with
    starts | ⟨old, present, same, before, stays⟩
  · obtain ⟨stored, unprocessed⟩ := starts_drawn starts inside
    exact ⟨event, stored, rfl, unprocessed⟩
  · obtain ⟨row, stored, ident, unprocessed⟩ := ledger.held old present batch same before event inside
    refine ⟨row, stays row stored ?_, ident, unprocessed⟩
    have named : row.id = event.id := congrArg Prod.fst ident
    exact named ▸ List.mem_map_of_mem inside

theorem reach_ledger {ok : Sys → Label → Bool} (reached : Reach (step cfg) ok Sys.empty sys) :
    Ledger sys := by
  induction reached with
  | start => exact ledger_empty
  | next label before _ stepped ledger =>
    obtain ⟨below, distinct⟩ := ledger_numbers before ledger stepped
    refine ⟨below, distinct, ledger_apart ledger stepped, ?_⟩
    intro path member batch role flying event inside
    exact ledger_held before ledger stepped member role flying inside

end System

end QueueWorkflows
