import QueueWorkflows.Engine.Drain
import QueueWorkflows.Engine.Ledger

/-! The bookkeeping of the event drain, whatever becomes of the callbacks: each event
is settled by its own result alone, and no event stays open at its last attempt. -/

namespace QueueWorkflows

open Relation (ReflTransGen)
open Transaction (Prog Pool Reach follow)
open Transaction.Prog (Always Closes Course)
open NodePool (Handled settleEvent updateEvent dispatchMaxAttempts)

/-! ### One event -/

def Db.eventRows (db : Db) (eventId : Nat) : List DispatchEvent :=
  db.events.filter fun row => row.id == eventId

/-- Did the callback return? -/
def NodePool.Handled.returned : Handled → Bool
  | .succeeded _ => true
  | .raised _ _ => false

def DispatchEvent.close (clock : Time) (row : DispatchEvent) : DispatchEvent :=
  { row with processedAt := some clock }

def DispatchEvent.countFailure (error : PyErr) (row : DispatchEvent) : DispatchEvent :=
  { row with
    attempts := row.attempts + 1
    error := some (String.ofList (error.describe.toList.take 8000)) }

/-- The row of an event as its own bookkeeping leaves it. -/
def NodePool.Handled.booked (clock : Time) : Handled → DispatchEvent → DispatchEvent
  | .succeeded _, row => row.close clock
  | .raised event error, row =>
    if dispatchMaxAttempts ≤ event.attempts + 1 then (row.countFailure error).close clock
    else row.countFailure error

theorem booked_attempts (clock : Time) (one : Handled) (row : DispatchEvent) :
    (one.booked clock row).attempts = row.attempts + if one.returned then 0 else 1 := by
  cases one with
  | succeeded event => rfl
  | raised event error =>
    simp only [NodePool.Handled.booked]
    split <;> rfl

/-- The row of an open event is closed when its callback returned or its attempts are
used up. -/
theorem booked_processed (clock : Time) {one : Handled} (unprocessed : one.event.processedAt = none) :
    (one.booked clock one.event).processedAt.isSome = true ↔
      one.returned = true ∨ dispatchMaxAttempts ≤ (one.booked clock one.event).attempts := by
  rw [booked_attempts]
  cases one with
  | succeeded event => exact iff_of_true rfl (.inl rfl)
  | raised event error =>
    have opened : event.processedAt = none := unprocessed
    simp only [NodePool.Handled.booked, NodePool.Handled.returned, NodePool.Handled.event,
      Bool.false_eq_true, if_false, false_or]
    by_cases spent : dispatchMaxAttempts ≤ event.attempts + 1
    · rw [if_pos spent]
      exact iff_of_true rfl spent
    · rw [if_neg spent]
      simp [spent, DispatchEvent.countFailure, opened]

section Rows

variable {db : Db} {eventId : Nat}

theorem eventRows_updateEvent {other : Nat} {change : DispatchEvent → DispatchEvent}
    (same : ∀ row, (change row).id = row.id) :
    (updateEvent other change db).eventRows eventId =
      if eventId = other then (db.eventRows eventId).map change else db.eventRows eventId := by
  have named : ∀ row : DispatchEvent,
      (if row.id == other then change row else row).id = row.id := by
    intro row
    split
    · exact same row
    · rfl
  unfold Db.eventRows updateEvent
  rw [List.filter_map]
  have kept : ((fun row : DispatchEvent => row.id == eventId) ∘ fun row =>
      if row.id == other then change row else row) = fun row => row.id == eventId := by
    funext row
    simp only [Function.comp_apply, named]
  rw [kept]
  by_cases mine : eventId = other
  · rw [if_pos mine]
    refine List.map_congr_left fun row member => ?_
    rw [if_pos (mine ▸ (List.mem_filter.mp member).2)]
  · rw [if_neg mine]
    refine (List.map_congr_left fun row member => ?_).trans (List.map_id _)
    rw [if_neg fun theirs => ?_, id_eq]
    have id := (List.mem_filter.mp member).2
    rw [beq_iff_eq] at id theirs
    exact mine (id.symm.trans theirs)

theorem settleEvent_clock (one : Handled) : (settleEvent db one).clock = db.clock := by
  cases one with
  | succeeded event => rfl
  | raised event error =>
    simp only [settleEvent]
    split <;> rfl

theorem eventRows_markProcessed {other : Nat} :
    (NodePool.markProcessed other db).eventRows eventId =
      if eventId = other then (db.eventRows eventId).map (DispatchEvent.close db.clock)
      else db.eventRows eventId :=
  eventRows_updateEvent fun _ => rfl

theorem eventRows_settleEvent (one : Handled) :
    (settleEvent db one).eventRows eventId =
      if eventId = one.event.id then (db.eventRows eventId).map (one.booked db.clock)
      else db.eventRows eventId := by
  cases one with
  | succeeded event => exact eventRows_markProcessed
  | raised event error =>
    have counts : (updateEvent event.id (DispatchEvent.countFailure error) db).eventRows eventId =
        if eventId = event.id then (db.eventRows eventId).map (DispatchEvent.countFailure error)
        else db.eventRows eventId :=
      eventRows_updateEvent fun _ => rfl
    by_cases spent : dispatchMaxAttempts ≤ event.attempts + 1
    · have booked : Handled.booked db.clock (.raised event error) =
          DispatchEvent.close db.clock ∘ DispatchEvent.countFailure error := by
        funext row
        exact if_pos spent
      have settled : settleEvent db (.raised event error) = NodePool.markProcessed event.id
          (NodePool.poisonRun event error
            (updateEvent event.id (DispatchEvent.countFailure error) db)) := if_pos spent
      rw [settled, eventRows_markProcessed, booked, ← List.map_map, Handled.event]
      have poisons (before : Db) :
          (NodePool.poisonRun event error before).eventRows eventId = before.eventRows eventId := rfl
      rw [poisons, counts]
      by_cases mine : eventId = event.id
      · rw [if_pos mine, if_pos mine, if_pos mine]
        rfl
      · rw [if_neg mine, if_neg mine, if_neg mine]
    · have booked : Handled.booked db.clock (.raised event error) =
          DispatchEvent.countFailure error := by
        funext row
        exact if_neg spent
      have settled : settleEvent db (.raised event error) =
          updateEvent event.id (DispatchEvent.countFailure error) db := if_neg spent
      rw [settled, booked]
      exact counts

/-! ### The batch -/

variable {handled : List Handled}

theorem eventRows_outside (outside : eventId ∉ handled.map fun one => one.event.id) :
    (handled.foldl settleEvent db).eventRows eventId = db.eventRows eventId := by
  induction handled generalizing db with
  | nil => rfl
  | cons first rest ih =>
    rw [List.map_cons, List.mem_cons, not_or] at outside
    rw [List.foldl_cons, ih outside.2, eventRows_settleEvent, if_neg outside.1]

/-- Whatever became of the others, an event is settled by its own result. -/
theorem eventRows_settled (distinct : (handled.map fun one => one.event.id).Nodup) {one : Handled}
    (inside : one ∈ handled) :
    (handled.foldl settleEvent db).eventRows one.event.id =
      (db.eventRows one.event.id).map (one.booked db.clock) := by
  induction handled generalizing db with
  | nil => exact absurd inside List.not_mem_nil
  | cons first rest ih =>
    rw [List.map_cons, List.nodup_cons] at distinct
    rw [List.foldl_cons]
    rcases List.mem_cons.mp inside with rfl | later
    · rw [eventRows_outside distinct.1, eventRows_settleEvent, if_pos rfl]
    · have apart : one.event.id ≠ first.event.id := fun same =>
        distinct.1 (same ▸ List.mem_map_of_mem later)
      rw [ih distinct.2 later, eventRows_settleEvent, if_neg apart, settleEvent_clock]

theorem terminal_stays {runId : String} {run : RunRow} (found : db.run? runId = some run)
    (ended : run.status.terminal = true) :
    (handled.foldl settleEvent db).run? runId = some run := by
  obtain ⟨member, rfl⟩ := Db.run?_mem found
  obtain ⟨after, present, poisoned⟩ := (bookkept_foldl (.refl db) handled).present run member
  rcases poisoned with rfl | ⟨-, live, -⟩
  · exact Db.run?_of_mem present
  · rw [ended] at live
    cases live

/-- Every open event has attempts left. -/
def Retriable (db : Db) : Prop :=
  ∀ event ∈ db.events, event.processedAt = none → event.attempts < dispatchMaxAttempts

/-- An event as drawn is the one row of its id. -/
def Drawn (batch : List DispatchEvent) (db : Db) : Prop :=
  ∀ event ∈ batch, db.eventRows event.id = [event] ∧ event.processedAt = none

theorem Drawn.booked {one : Handled} (drawn : Drawn (handled.map Handled.event) db)
    (distinct : (handled.map fun one => one.event.id).Nodup) (inside : one ∈ handled) :
    (handled.foldl settleEvent db).eventRows one.event.id = [one.booked db.clock one.event] := by
  rw [eventRows_settled distinct inside, (drawn _ (List.mem_map_of_mem inside)).1, List.map_singleton]

theorem Retriable.settled (within : Retriable db) (drawn : Drawn (handled.map Handled.event) db)
    (distinct : (handled.map fun one => one.event.id).Nodup) :
    Retriable (handled.foldl settleEvent db) := by
  intro row present unprocessed
  have mine : row ∈ (handled.foldl settleEvent db).eventRows row.id :=
    List.mem_filter.mpr ⟨present, beq_self_eq_true _⟩
  by_cases inside : row.id ∈ handled.map fun one => one.event.id
  · obtain ⟨one, member, named⟩ := List.mem_map.mp inside
    rw [← named, drawn.booked distinct member, List.mem_singleton] at mine
    have opened := (drawn _ (List.mem_map_of_mem member)).2
    have closes := booked_processed db.clock opened
    rw [← mine, unprocessed] at closes
    exact Nat.lt_of_not_le fun spent => nomatch closes.mpr (.inr spent)
  · rw [eventRows_outside inside] at mine
    exact within row (List.mem_filter.mp mine).1 unprocessed

end Rows

/-! ### A pass -/

section Pass

variable {cfg : Config} {host : Host} {fuel : Nat} {R : Db → Db → Prop} {db last : Db}
  {batch : List DispatchEvent} {trace : List (Db × Db)}

/-- The callbacks of a batch, one after the other, and what became of each. -/
inductive Tried (cfg : Config) (host : Host) (fuel : Nat) (R : Db → Db → Prop) :
    List DispatchEvent → Db → List Handled → Db → Prop
  | nothing (db : Db) : Tried cfg host fuel R [] db [] db
  | returns {event : DispatchEvent} {rest : List DispatchEvent} {db middle last : Db}
      {trace : List (Db × Db)} {handled : List Handled}
      (called : (NodePool.callback cfg host fuel event).Course R db trace (.ok ()) middle)
      (others : Tried cfg host fuel R rest middle handled last) :
      Tried cfg host fuel R (event :: rest) db (.succeeded event :: handled) last
  | raises {event : DispatchEvent} {rest : List DispatchEvent} {db middle counted last : Db}
      {trace : List (Db × Db)} {error : PyErr} {handled : List Handled}
      (called : (NodePool.callback cfg host fuel event).Course R db trace (.error error) middle)
      (moved : ReflTransGen R middle counted)
      (others : Tried cfg host fuel R rest counted handled last) :
      Tried cfg host fuel R (event :: rest) db (.raised event error :: handled) last

theorem Tried.events {handled : List Handled} (tried : Tried cfg host fuel R batch db handled last) :
    handled.map Handled.event = batch := by
  induction tried with
  | nothing => rfl
  | returns _ _ ih => rw [List.map_cons, ih, Handled.event]
  | raises _ _ _ ih => rw [List.map_cons, ih, Handled.event]

theorem handleEvent_cases {event : DispatchEvent} {outcome : Except PyErr Handled}
    (course : (NodePool.handleEvent cfg host fuel event).Course R db trace outcome last) :
    (outcome = .ok (.succeeded event) ∧
        (NodePool.callback cfg host fuel event).Course R db trace (.ok ()) last) ∨
      ∃ error, outcome = .ok (.raised event error) ∧
        (NodePool.callback cfg host fuel event).Course R db trace (.error error) last := by
  unfold NodePool.handleEvent at course
  rcases course.handle_cases with ⟨one, body, rfl⟩ | ⟨error, middle, _, _, body, handler, rfl⟩
  · rcases body.bind_cases with ⟨_, middle, calls, _, called, returned, rfl⟩ | ⟨_, -, ⟨⟩⟩
    obtain ⟨rfl, same, rfl⟩ := returned.pure_cases
    exact .inl ⟨same, (List.append_nil calls).symm ▸ called⟩
  · obtain ⟨rfl, rfl, rfl⟩ := handler.pure_cases
    rcases body.bind_cases with ⟨_, _, _, _, _, returned, -⟩ | ⟨_, called, same⟩
    · cases returned
    · cases same
      exact .inr ⟨error, rfl, (List.append_nil _).symm ▸ called⟩

/-- Locking a run reads its row, if anything. -/
theorem lockRun_cases {handled : Handled} {outcome : Except PyErr (List String)}
    (course : (NodePool.lockRun handled).Course R db trace outcome last) :
    (∃ poisoned, outcome = .ok poisoned) ∧ ReflTransGen R db last ∧
      ∀ move ∈ trace, move.1 = move.2 := by
  have plain {outcome : Except PyErr (List String)}
      (course : (pure [] : Program (List String)).Course R db trace outcome last) :
      (∃ poisoned, outcome = .ok poisoned) ∧ ReflTransGen R db last ∧
        ∀ move ∈ trace, move.1 = move.2 := by
    obtain ⟨rfl, rfl, rfl⟩ := course.pure_cases
    exact ⟨⟨_, rfl⟩, .refl, fun _ member => nomatch member⟩
  cases handled with
  | succeeded event => exact plain course
  | raised event error =>
    dsimp only [NodePool.lockRun] at course
    split at course
    · obtain ⟨found, moved, rfl, ⟨_, done, rfl⟩ | ⟨_, failed, -⟩⟩ := course.commit_cases
      · cases done
        exact ⟨⟨_, rfl⟩, moved, fun move member => List.mem_singleton.mp member ▸ rfl⟩
      · cases failed
    · exact plain course

/-- Alone, it leaves the state as it is. -/
theorem lockRun_alone {handled : Handled} : ∃ counting poisoned,
    (NodePool.lockRun handled).Course R db counting (.ok poisoned) db := by
  cases handled with
  | succeeded event => exact ⟨_, _, .returns _ _⟩
  | raised event error =>
    dsimp only [NodePool.lockRun]
    split
    · exact ⟨_, _, .commits .refl rfl (.returns _ _)⟩
    · exact ⟨_, _, .returns _ _⟩

theorem handleEvents_cases {locked : List String} {outcome : Except PyErr (List Handled)}
    (course : (NodePool.handleEvents cfg host fuel locked batch).Course R db trace outcome last) :
    ∃ handled, outcome = .ok handled ∧ Tried cfg host fuel R batch db handled last := by
  induction batch generalizing db trace outcome last locked with
  | nil =>
    obtain ⟨-, rfl, rfl⟩ := course.pure_cases
    exact ⟨[], rfl, .nothing _⟩
  | cons event rest ih =>
    unfold NodePool.handleEvents at course
    rcases course.bind_cases with ⟨one, middle, _, _, first, counts, -⟩ | ⟨_, first, -⟩
    · rcases counts.bind_cases with ⟨poisoned, found, _, _, counted, continues, -⟩ | ⟨_, counted, -⟩
      · rcases continues.bind_cases with ⟨handled, later, _, _, second, returned, -⟩ | ⟨_, second, -⟩
        · obtain ⟨-, rfl, rfl⟩ := returned.pure_cases
          obtain ⟨_, same, others⟩ := ih second
          cases same
          refine ⟨one :: handled, rfl, ?_⟩
          rcases handleEvent_cases first.of_awaiting with ⟨same, called⟩ | ⟨error, same, called⟩
          · cases same
            obtain ⟨-, -, rfl⟩ := counted.pure_cases
            exact .returns called others
          · cases same
            exact .raises called (lockRun_cases counted).2.1 others
        · obtain ⟨_, ⟨⟩, -⟩ := ih second
      · obtain ⟨⟨_, ⟨⟩⟩, -⟩ := lockRun_cases counted
    · rcases handleEvent_cases first.of_awaiting with ⟨⟨⟩, -⟩ | ⟨_, ⟨⟩, -⟩

/-- A pass that has come to its end: the callbacks, and then the bookkeeping. -/
theorem drain_cases {outcome : Except PyErr Unit}
    (course : (NodePool.drainDispatchEvents cfg host fuel batch).Course R db trace outcome last) :
    outcome = .ok () ∧ ∃ handled tried found, Tried cfg host fuel R batch db handled tried ∧
      ReflTransGen R tried found ∧ last = handled.foldl settleEvent found := by
  unfold NodePool.drainDispatchEvents at course
  rcases course.bind_cases with ⟨handled, tried, _, _, first, second, -⟩ | ⟨_, first, -⟩
  · obtain ⟨_, same, calls⟩ := handleEvents_cases first
    cases same
    obtain ⟨found, moved, -, ⟨_, done, rfl⟩ | ⟨_, failed, -⟩⟩ := second.commit_cases
    · cases done
      exact ⟨rfl, handled, tried, found, calls, moved, rfl⟩
    · cases failed
  · obtain ⟨_, ⟨⟩, -⟩ := handleEvents_cases first

/-- While its rows are locked, neither the callbacks nor the others touch them. -/
theorem Tried.drawn {handled : List Handled} {others : List DispatchEvent}
    (locks : ∀ before after, R before after → Drawn others before → Drawn others after)
    (tried : Tried cfg host fuel R batch db handled last) (drawn : Drawn others db) :
    Drawn others last := by
  have calls {event : DispatchEvent} {db middle : Db} {trace : List (Db × Db)}
      {outcome : Except PyErr Unit}
      (called : (NodePool.callback cfg host fuel event).Course R db trace outcome middle)
      (drawn : Drawn others db) : Drawn others middle := by
    have moves := called.moves (sameOutbox_frame.callback trivial)
    refine Prog.stays (Drawn others) (fun before after move drawn => ?_) moves drawn
    rcases move with move | ⟨same, -⟩
    · exact locks before after move drawn
    · unfold Drawn Db.eventRows
      rw [same]
      exact drawn
  induction tried with
  | nothing => exact drawn
  | returns called _ ih => exact ih (calls called drawn)
  | raises called moved _ ih => exact ih (Prog.stays _ locks moved (calls called drawn))

end Pass

/-! ### A pass that waits for itself -/

section Waiting

variable (cfg : Config) (host : Host) (fuel : Nat)

/-- Each callback of the batch returns or raises, in the state that those before it leave. -/
def settles : List DispatchEvent → Db → Bool
  | [], _ => true
  | event :: rest, db =>
    ((NodePool.callback cfg host fuel event).run db).1.isSome &&
      settles rest ((NodePool.callback cfg host fuel event).run db).2

/-- The event's callback raises, for the tenth time, and its run is not over. -/
def poisons (event : DispatchEvent) (db : Db) : Bool :=
  raises ((NodePool.callback cfg host fuel event).run db).1 &&
    decide (dispatchMaxAttempts ≤ event.attempts + 1) &&
      (((NodePool.callback cfg host fuel event).run db).2.run? event.runId).any fun run =>
        !run.status.terminal

/-- No callback of the batch comes to update the row of a run that an event before it has
poisoned. -/
def clear : List String → List DispatchEvent → Db → Bool
  | _, [], _ => true
  | poisoned, event :: rest, db =>
    ((NodePool.callback cfg host fuel event).sites db).all (fun site =>
        !NodePool.writesRun poisoned site) &&
      clear (poisoned ++ if poisons cfg host fuel event db then [event.runId] else []) rest
        ((NodePool.callback cfg host fuel event).run db).2

variable {cfg : Config} {host : Host} {fuel : Nat} {event : DispatchEvent}
  {batch : List DispatchEvent} {db : Db} {locked : List String}

theorem sites_handleEvent : (NodePool.handleEvent cfg host fuel event).sites db =
    (NodePool.callback cfg host fuel event).sites db :=
  Prog.sites_handle_pure.trans Prog.sites_bind_pure

/-- What became of an event whose callback has come to this end. -/
def handledAs (event : DispatchEvent) : Except PyErr Unit → Handled
  | .ok _ => .succeeded event
  | .error error => .raised event error

theorem run_handleEvent {outcome : Except PyErr Unit}
    (ends : ((NodePool.callback cfg host fuel event).run db).1 = some outcome) :
    (NodePool.handleEvent cfg host fuel event).run db =
      (some (.ok (handledAs event outcome)), ((NodePool.callback cfg host fuel event).run db).2) := by
  unfold NodePool.handleEvent
  rw [Prog.run_handle, Prog.run_bind]
  generalize (NodePool.callback cfg host fuel event).run db = done at ends
  obtain ⟨result, after⟩ := done
  obtain rfl : result = some outcome := ends
  cases outcome <;> rfl

theorem run_lockRun {outcome : Except PyErr Unit}
    (ends : ((NodePool.callback cfg host fuel event).run db).1 = some outcome) :
    (NodePool.lockRun (handledAs event outcome)).run
        ((NodePool.callback cfg host fuel event).run db).2 =
      (some (.ok (if poisons cfg host fuel event db then [event.runId] else [])),
        ((NodePool.callback cfg host fuel event).run db).2) := by
  unfold poisons
  rw [ends]
  cases outcome with
  | ok _ => rfl
  | error error =>
    simp only [handledAs, NodePool.lockRun, raises, Bool.true_and]
    by_cases spent : dispatchMaxAttempts ≤ event.attempts + 1
    · simp only [spent, if_true, decide_true, Bool.true_and]
      rfl
    · simp only [spent, if_false, decide_false, Bool.false_and]
      rfl

theorem handleEvents_cons : NodePool.handleEvents cfg host fuel locked (event :: batch) =
    (NodePool.handleEvent cfg host fuel event).awaiting (NodePool.writesRun locked) >>=
      fun handled => NodePool.lockRun handled >>= fun poisoned =>
        NodePool.handleEvents cfg host fuel (locked ++ poisoned) batch >>= fun others =>
          pure (handled :: others) :=
  rfl

/-- One event: it is handled and counted, or the pass does not come back from it. -/
theorem run_handleEvents_cons (ends : ((NodePool.callback cfg host fuel event).run db).1.isSome) :
    ((NodePool.handleEvents cfg host fuel locked (event :: batch)).run db).1.isSome = true ↔
      ((NodePool.callback cfg host fuel event).sites db).all (fun site =>
          !NodePool.writesRun locked site) = true ∧
        ((NodePool.handleEvents cfg host fuel
          (locked ++ if poisons cfg host fuel event db then [event.runId] else []) batch).run
            ((NodePool.callback cfg host fuel event).run db).2).1.isSome = true := by
  obtain ⟨outcome, ends⟩ := Option.isSome_iff_exists.mp ends
  rw [handleEvents_cons]
  by_cases free : ((NodePool.callback cfg host fuel event).sites db).all (fun site =>
      !NodePool.writesRun locked site) = true
  · have waits : ∀ site ∈ (NodePool.handleEvent cfg host fuel event).sites db,
        NodePool.writesRun locked site = false := by
      rw [sites_handleEvent]
      simpa using free
    rw [Prog.run_bind, Prog.run_awaiting waits, run_handleEvent ends]
    dsimp only
    rw [Prog.run_bind, run_lockRun ends]
    dsimp only
    rw [Prog.run_bind, and_iff_right free]
    generalize (NodePool.handleEvents cfg host fuel _ batch).run _ = done
    obtain ⟨_ | (_ | _), _⟩ := done <;> rfl
  · obtain ⟨site, comes, waits⟩ : ∃ site ∈ (NodePool.callback cfg host fuel event).sites db,
        NodePool.writesRun locked site = true := by simpa using free
    have stuck := Prog.run_awaiting_waits (sites_handleEvent ▸ comes) waits
    refine iff_of_false ?_ fun both => free both.1
    rw [Prog.run_bind]
    generalize ((NodePool.handleEvent cfg host fuel event).awaiting
      (NodePool.writesRun locked)).run db = done at stuck
    obtain ⟨result, after⟩ := done
    obtain rfl : result = none := stuck
    exact Bool.false_ne_true

theorem handleEvents_ends_iff (ends : settles cfg host fuel batch db = true) :
    ((NodePool.handleEvents cfg host fuel locked batch).run db).1.isSome = true ↔
      clear cfg host fuel locked batch db = true := by
  induction batch generalizing db locked with
  | nil => exact iff_of_true rfl rfl
  | cons event rest ih =>
    rw [settles, Bool.and_eq_true] at ends
    rw [run_handleEvents_cons ends.1, ih ends.2, clear, Bool.and_eq_true]

/-- Alone, a pass over callbacks that return or raise comes back where it is clear. -/
theorem drain_ends_iff (ends : settles cfg host fuel batch db = true) :
    ((NodePool.drainDispatchEvents cfg host fuel batch).run db).1.isSome = true ↔
      clear cfg host fuel [] batch db = true := by
  rw [← handleEvents_ends_iff ends]
  unfold NodePool.drainDispatchEvents
  rw [Prog.run_bind]
  generalize (NodePool.handleEvents cfg host fuel [] batch).run db = done
  obtain ⟨_ | (_ | _), _⟩ := done <;> rfl

end Waiting

/-! ### Over whole runs -/

section System

variable {cfg : Config} {db after : Db}

theorem Retriable.same (within : Retriable db) (same : SameOutbox db after) : Retriable after :=
  fun event present => within event (same.1 ▸ present)

theorem Retriable.appended {event : DispatchEvent} (within : Retriable db)
    (appended : after.events = db.events ++ [event]) (fresh : event.attempts = 0) :
    Retriable after := by
  intro row present unprocessed
  rw [appended] at present
  rcases List.mem_append.mp present with old | last
  · exact within row old unprocessed
  · rw [List.mem_singleton.mp last, fresh]
    exact Nat.zero_lt_succ _

theorem within_markWithEvent {jobId : Nat} {runId nodeId : String} {kind : EventKind}
    {outcome result : Executor.Outcome} {marking : Txn (Option NodeJob)}
    {change : NodeJob → NodeJob} {keeps : ∀ row, (change row).key = row.key}
    (done : Executor.markWithEvent marking runId nodeId kind outcome db = .ok (result, after))
    (marks : marking db = NodeQueue.mark jobId change keeps db) (within : Retriable db) :
    Retriable after := by
  rcases markWithEvent_cases done with ⟨-, unmarked⟩ | ⟨_, _, marked, -, written⟩
  · obtain ⟨rfl, -⟩ := mark_cases (marks.symm.trans unmarked)
    exact within
  · obtain ⟨rfl, -⟩ := mark_cases (marks.symm.trans marked)
    cases written
    exact within.appended rfl rfl

theorem within_failJobInTxn {jobId : Nat} {error : String}
    (done : ClaimWorker.failJobInTxn jobId error db = .ok ((), after)) (within : Retriable db) :
    Retriable after := by
  rcases failJobInTxn_cases done with unmarked | ⟨_, _, marked, written⟩
  · obtain ⟨rfl, -⟩ := mark_cases unmarked
    exact within
  · obtain ⟨rfl, -⟩ := mark_cases marked
    cases written
    exact within.appended rfl rfl

theorem within_frame (job : NodeJob) :
    WorkerFrame cfg job fun _ db after => Retriable db → Retriable after where
  reads _ _ _ within := within
  resolves _ _ _ done within := by
    cases done
    exact within
  requeues _ _ _ _ _ done within := by
    cases done
    exact within
  completes _ _ _ _ done := within_markWithEvent done rfl
  fails _ _ _ _ done := within_markWithEvent done rfl
  trips _ _ _ done := within_failJobInTxn done
  parks _ _ done within := by
    cases done
    exact within.appended rfl rfl

/-- What a path does to the attempts. -/
def Tidies (path : Path) (_ : Db) : Prop :=
  match path.role with
  | .drain batch => path.prog.Closes SameOutbox (Settles batch) fun _ => True
  | _ => path.prog.Always fun db after => Retriable db → Retriable after

theorem tidies_rule : Pool.Rule (fun _ _ => True) Tidies where
  stable held _ := held
  step {role prog rest state after} held stepped := by
    refine ⟨trivial, ?_⟩
    cases role with
    | drain batch => exact (Closes.step held stepped).1
    | _ => exact (Always.step held stepped).2
  blip {role prog rest state error} held failed := by
    cases role with
    | drain batch => exact Closes.blip held failed
    | _ => exact Always.blip held failed

variable {sys next : Sys} {label : Label}

theorem starts_tidies {role : Role} {prog : Program Unit}
    (starts : Starts cfg sys label db role prog) : Tidies ⟨role, prog⟩ db := by
  have bare {program : Program Unit} (always : program.Always SameOutbox) :
      program.Always fun db after => Retriable db → Retriable after :=
    always.weaken fun _ _ same within => within.same same
  cases starts with
  | restart => exact bare (sameOutbox_frame.restartRun trivial)
  | expand => exact bare (sameOutbox_frame.expandRuns fun _ _ => trivial)
  | drain => exact closes_drain
  | sweep => exact bare (sameOutbox_frame.sweepStuckRuns fun _ _ => trivial)
  | poll => exact bare (sameOutbox_frame.processRows fun _ _ => trivial)
  | claimCpu => exact (within_frame _).runNode
  | claimGpu => exact (within_frame _).runNode
  | redeliver => exact (within_frame _).runNode
  | trip => exact (within_frame _).watchdogTrip

variable {ok : Sys → Label → Bool}

theorem reach_tidies (reached : Reach (step cfg) ok Sys.empty sys) : sys.All Tidies := by
  refine reached.invariant (by simp [Sys.empty, Pool.All]) fun state label after all _ stepped => ?_
  exact (step_all tidies_rule (fun _ => trivial) (fun _ => trivial) (fun _ _ => trivial)
    (fun _ _ starts _ => starts_tidies starts) all stepped).2

/-- Every drain in flight holds its batch as it was drawn. -/
def HoldsBatches (sys : Sys) : Prop :=
  ∀ path ∈ sys.actors, ∀ batch, path.role = .drain batch → path.prog.inFlight = true →
    ∀ event ∈ batch, event ∈ sys.store.events ∧ event.processedAt = none

theorem reach_holdsBatches (reached : Reach (step cfg) ok Sys.empty sys) : HoldsBatches sys := by
  induction reached with
  | start => exact fun _ member => nomatch member
  | next label before _ stepped held =>
    intro path member batch role flying event inside
    rcases locked_rows_stay before (reach_ledger before) stepped member role flying with
      starts | ⟨old, present, same, active, stays⟩
    · exact starts_drawn starts inside
    · obtain ⟨stored, unprocessed⟩ := held old present batch same active event inside
      exact ⟨stays event stored (List.mem_map_of_mem inside), unprocessed⟩

/-- An event that is stored is the one row of its id. -/
theorem eventRows_of_mem (keyed : (db.events.map DispatchEvent.id).Nodup) {event : DispatchEvent}
    (stored : event ∈ db.events) : db.eventRows event.id = [event] := by
  obtain ⟨front, back, split⟩ := List.append_of_mem stored
  rw [split, List.map_append, List.map_cons] at keyed
  obtain ⟨-, behind, apart⟩ := List.nodup_append.mp keyed
  have others (rows : List DispatchEvent) (none : event.id ∉ rows.map DispatchEvent.id) :
      rows.filter (fun row => row.id == event.id) = [] := by
    refine List.filter_eq_nil_iff.mpr fun row member same => none ?_
    exact beq_iff_eq.mp same ▸ List.mem_map_of_mem member
  rw [Db.eventRows, split, List.filter_append, List.filter_cons, if_pos (beq_self_eq_true _),
    others front fun inside => apart _ inside _ List.mem_cons_self rfl,
    others back (List.nodup_cons.mp behind).1, List.nil_append]

theorem step_within (reached : Reach (step cfg) ok Sys.empty sys) (within : Retriable sys.store)
    (stepped : step cfg sys label = some next) : Retriable next.store := by
  rcases step_cases stepped with ⟨statement, -⟩ | ⟨role, prog, starts, -⟩ |
    ⟨index, -, advanced⟩ | ⟨index, error, -, failed⟩ | ⟨index, -, rfl⟩
  · exact within.same statement.sameOutbox
  · rcases starts.store with store | statement | ⟨job, claims⟩
    · rw [store]
      exact within
    · exact within.same statement.sameOutbox
    · exact within.same claims.sameOutbox
  · obtain ⟨path, rest, found, moved, -⟩ := Pool.advance_cases advanced
    have member := List.mem_of_getElem? found
    have flying := Prog.inFlight_of_step moved
    have tidies := reach_tidies reached path member
    cases role : path.role with
    | drain batch =>
      simp only [Tidies, role] at tidies
      rcases (Closes.step tidies moved).2 with store | same | ⟨⟨handled, drawn, settled⟩, -⟩
      · rw [store]
        exact within
      · exact within.same same
      · have ledger := reach_ledger reached
        have apart := ledger.apart
        rw [lockedEvents_eq] at apart
        have distinct := (List.nodup_flatMap.mp apart).1 path member
        simp only [Path.locks, role, flying, if_true, ← drawn, List.map_map] at distinct
        rw [settled]
        refine within.settled (fun event inside => ?_) distinct
        rw [drawn] at inside
        obtain ⟨stored, unprocessed⟩ :=
          reach_holdsBatches reached path member batch role flying event inside
        exact ⟨eventRows_of_mem ledger.distinct stored, unprocessed⟩
    | _ =>
      simp only [Tidies, role] at tidies
      rcases (Always.step tidies moved).1 with store | keeps
      · rw [store]
        exact within
      · exact keeps within
  · obtain ⟨_, _, _, _, store, _⟩ := Pool.blip_cases failed
    rw [store]
    exact within
  · exact within

theorem reach_within (reached : Reach (step cfg) ok Sys.empty sys) : Retriable sys.store := by
  induction reached with
  | start => exact fun _ member => nomatch member
  | next label before _ stepped within => exact step_within before within stepped

/-- What the last transaction of a pass makes of the table it finds. -/
structure Booking (batch : List DispatchEvent) (handled : List Handled) (found last : Db) :
    Prop where
  settled : ∀ one ∈ handled, ∃ row, last.eventRows one.event.id = [row] ∧
    (row.processedAt.isSome = true ↔ one.returned = true ∨ dispatchMaxAttempts ≤ row.attempts) ∧
    row.attempts = one.event.attempts + if one.returned then 0 else 1
  alone : ∀ one ∈ handled, ∀ others : List Handled, others.map Handled.event = batch →
    one ∈ others →
      (others.foldl settleEvent found).eventRows one.event.id = last.eventRows one.event.id
  untried : ∀ eventId ∉ batch.map DispatchEvent.id, last.eventRows eventId = found.eventRows eventId
  terminal : ∀ runId run, found.run? runId = some run → run.status.terminal = true →
    last.run? runId = some run
  within : Retriable found → Retriable last

theorem drainBatch_drawn {held : List Nat} (keyed : (db.events.map DispatchEvent.id).Nodup) :
    Drawn (NodePool.drainBatch cfg held db) db := by
  intro event inside
  obtain ⟨stored, unprocessed, -⟩ := mem_drainBatch inside
  exact ⟨eventRows_of_mem keyed stored, unprocessed⟩

/-- The pass has drawn its batch and tried the callbacks in turn, and each event is settled by
its own result: closed if and only if the callback returned or the attempts have reached ten,
with one attempt more if it did not return. -/
def Booked (cfg : Config) (host : Host) (fuel : Nat) (R : Db → Db → Prop)
    (batch : List DispatchEvent) (db last : Db) : Prop :=
  ∃ handled tried found, Tried cfg host fuel R batch db handled tried ∧
    ReflTransGen R tried found ∧ last = handled.foldl settleEvent found ∧
    Booking batch handled found last

theorem course_booked {host : Host} {fuel : Nat} {R : Db → Db → Prop} {held : List Nat}
    {trace : List (Db × Db)} {outcome : Except PyErr Unit} {last : Db}
    (keyed : (db.events.map DispatchEvent.id).Nodup)
    (locks : ∀ before after, R before after → ∀ event ∈ NodePool.drainBatch cfg held db,
      after.eventRows event.id = before.eventRows event.id)
    (course : (NodePool.drainDispatchEvents cfg host fuel (NodePool.drainBatch cfg held db)).Course
      R db trace outcome last) :
    outcome = .ok () ∧ Booked cfg host fuel R (NodePool.drainBatch cfg held db) db last := by
  obtain ⟨returned, handled, tried, found, calls, moved, rfl⟩ := drain_cases course
  refine ⟨returned, handled, tried, found, calls, moved, rfl, ?_⟩
  have distinct : ((NodePool.drainBatch cfg held db).map DispatchEvent.id).Nodup :=
    nodup_drainBatch keyed
  have stays (before after : Db) (move : R before after)
      (drawn : Drawn (NodePool.drainBatch cfg held db) before) :
      Drawn (NodePool.drainBatch cfg held db) after := fun event inside =>
    ⟨(locks before after move event inside).trans (drawn event inside).1, (drawn event inside).2⟩
  have drawn : Drawn (NodePool.drainBatch cfg held db) found :=
    Prog.stays _ stays moved (calls.drawn stays (drainBatch_drawn keyed))
  generalize NodePool.drainBatch cfg held db = batch at calls distinct drawn
  obtain rfl := calls.events
  rw [List.map_map] at distinct
  have rows {one : Handled} {others : List Handled} (same : others.map Handled.event =
      handled.map Handled.event) (inside : one ∈ others) :
      (others.foldl settleEvent found).eventRows one.event.id =
        [one.booked found.clock one.event] := by
    have ids : (others.map fun one => one.event.id) = handled.map fun one => one.event.id := by
      have mapped := congrArg (List.map DispatchEvent.id) same
      rw [List.map_map, List.map_map] at mapped
      exact mapped
    exact Drawn.booked (same ▸ drawn) (ids ▸ distinct) inside
  constructor
  · intro one inside
    refine ⟨_, rows rfl inside, ?_, booked_attempts _ one _⟩
    exact booked_processed _ (drawn _ (List.mem_map_of_mem inside)).2
  · intro one inside others same also
    rw [rows same also, rows rfl inside]
  · intro eventId outside
    rw [List.map_map] at outside
    exact eventRows_outside outside
  · intro runId run found ended
    exact terminal_stays found ended
  · intro within
    exact within.settled drawn distinct

/-- **The bookkeeping of the drain.** Alone, a pass over callbacks that return or raise books
its batch if and only if no callback comes to update the row of a run that an event before it
has poisoned: the pass has that row locked, and waits for itself. With anyone else moving in
between, a pass that comes back has booked its batch. Over any run of the system no open event
has used up its attempts. -/
theorem drain_bookkeeping {host : Host} {fuel : Nat} {held : List Nat}
    (keyed : (db.events.map DispatchEvent.id).Nodup) :
    (settles cfg host fuel (NodePool.drainBatch cfg held db) db = true →
      ((∃ last, (NodePool.drainDispatchEvents cfg host fuel
          (NodePool.drainBatch cfg held db)).run db = (some (.ok ()), last) ∧
          Booked cfg host fuel (fun _ _ => False) (NodePool.drainBatch cfg held db) db last) ↔
        clear cfg host fuel [] (NodePool.drainBatch cfg held db) db = true)) ∧
    (∀ R trace outcome last, (∀ before after, R before after →
        ∀ event ∈ NodePool.drainBatch cfg held db,
          after.eventRows event.id = before.eventRows event.id) →
      (NodePool.drainDispatchEvents cfg host fuel (NodePool.drainBatch cfg held db)).Course
        R db trace outcome last →
      outcome = .ok () ∧ Booked cfg host fuel R (NodePool.drainBatch cfg held db) db last) ∧
    ∀ ok sys, Reach (step cfg) ok Sys.empty sys → Retriable sys.store := by
  refine ⟨fun ends => ?_, fun R trace outcome last locks course => course_booked keyed locks course,
    fun _ _ => reach_within⟩
  rw [← drain_ends_iff ends]
  constructor
  · rintro ⟨last, ran, -⟩
    rw [ran]
    rfl
  · intro comes
    obtain ⟨outcome, ran⟩ := Option.isSome_iff_exists.mp comes
    obtain ⟨trace, course⟩ := Course.of_run (R := fun _ _ => False) ran
    obtain ⟨rfl, booked⟩ := course_booked keyed (fun _ _ never => never.elim) course
    exact ⟨_, Prod.ext ran rfl, booked⟩

end System

/-! ### Samples -/

/-- `right` hangs on `left`, and its guard cannot be read; `side` stands alone. -/
def Sample.branching : Config :=
  { Sample.unreadable with
    workflowLoader := fun _ => .ok { steps := [
      { id := "left", kind := .pipeline, pipeline := "one" },
      { id := "right", kind := .pipeline, pipeline := "one", dependsOn := ["left"]
        skipIf := some (.str "answer") },
      { id := "side", kind := .pipeline, pipeline := "one" }] } }

def Sample.unprintable : Host :=
  { Sample.host with invoke := fun _ _ => .error ⟨.runtimeError, "out of paper"⟩ }

/-- Two runs are expanded, `left` of the first completes, and `side` of the first is claimed. -/
def Sample.claimed : List Label :=
  [.insertRun Sample.run, .insertRun { Sample.run with id := "s" }, .expand Sample.host 4] ++
    List.replicate 16 (.advance 0) ++ [.claimCpu { host := "a" } Sample.host false] ++
    List.replicate 5 (.advance 1) ++ [.claimCpu { host := "a" } Sample.unprintable false]

/-- After these, so many deliveries of the events of the first run's `left` have failed. -/
def Sample.delivered (labels : List Label) (attempts : Nat) : Db :=
  let sys := (follow (step Sample.branching) anyStep Sys.empty
    (Sample.claimed ++ labels)).getD Sys.empty
  { sys.store with events := sys.store.events.map fun event =>
      if event.runId == "r" && event.nodeId == "left/n" then { event with attempts := attempts }
      else event }

/-- `side` of the same run fails. -/
def Sample.crossed (attempts : Nat) : Db :=
  Sample.delivered (List.replicate 5 (.advance 2)) attempts

/-- Of the other run `left` completes, and `side` fails. -/
def Sample.apart : Db :=
  Sample.delivered ([.claimCpu { host := "a" } Sample.host false] ++
    List.replicate 5 (.advance 3) ++ [.claimCpu { host := "a" } Sample.unprintable false] ++
    List.replicate 5 (.advance 4)) 9

/-- The callback of the first event raises, for the tenth time, and that of the second comes to
fail the same run. Were it the ninth time, the second event would be booked. -/
theorem poisoned_run_waited_for :
    (¬ ∀ (cfg : Config) (host : Host) (fuel : Nat) (held : List Nat) (db : Db),
      (db.events.map DispatchEvent.id).Nodup →
      settles cfg host fuel (NodePool.drainBatch cfg held db) db = true →
      ∃ last, (NodePool.drainDispatchEvents cfg host fuel (NodePool.drainBatch cfg held db)).run
          db = (some (.ok ()), last) ∧
        Booked cfg host fuel (fun _ _ => False) (NodePool.drainBatch cfg held db) db last) ∧
    ((NodePool.drainDispatchEvents Sample.branching Sample.host 4
      (NodePool.drainBatch Sample.branching [] (Sample.crossed 8))).run
        (Sample.crossed 8)).1.isSome = true := by
  refine ⟨fun books => ?_, by decide +kernel⟩
  obtain ⟨last, ran, -⟩ := books Sample.branching Sample.host 4 [] (Sample.crossed 9)
    (by decide +kernel) (by decide +kernel)
  have waits : ((NodePool.drainDispatchEvents Sample.branching Sample.host 4
      (NodePool.drainBatch Sample.branching [] (Sample.crossed 9))).run
        (Sample.crossed 9)).1.isSome = false := by decide +kernel
  rw [ran] at waits
  cases waits

/-- A batch of three: the first callback raises for the tenth time, the second for the first,
and the third returns. -/
theorem mixed_batch_booked :
    ((NodePool.drainBatch Sample.branching [] Sample.apart).map fun event =>
      (event.runId, event.nodeId, event.attempts)) =
        [("r", "left/n", 9), ("s", "left/n", 0), ("s", "side/n", 0)] ∧
    ∃ last, (NodePool.drainDispatchEvents Sample.branching Sample.host 4
        (NodePool.drainBatch Sample.branching [] Sample.apart)).run Sample.apart =
          (some (.ok ()), last) ∧
      Booked Sample.branching Sample.host 4 (fun _ _ => False)
        (NodePool.drainBatch Sample.branching [] Sample.apart) Sample.apart last ∧
      (last.events.map fun event => (event.processedAt.isSome, event.attempts)) =
        [(true, 10), (false, 1), (true, 0)] ∧
      (last.statusOf "r", last.statusOf "s") = (some .failed, some .failed) := by
  refine ⟨by decide +kernel, ?_⟩
  obtain ⟨last, ran, booked⟩ := ((@drain_bookkeeping Sample.branching Sample.apart Sample.host 4 []
    (by decide +kernel)).1 (by decide +kernel)).mpr (by decide +kernel)
  obtain rfl : ((NodePool.drainDispatchEvents Sample.branching Sample.host 4
      (NodePool.drainBatch Sample.branching [] Sample.apart)).run Sample.apart).2 = last :=
    congrArg Prod.snd ran
  exact ⟨_, ran, booked, by decide +kernel, by decide +kernel⟩

end QueueWorkflows
