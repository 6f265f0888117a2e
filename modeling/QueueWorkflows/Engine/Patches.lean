import QueueWorkflows.Engine.Bookkeeping
import QueueWorkflows.Engine.PatchFiles

/-! The isolation of patch rows. The callbacks of a patch event only touch the input spec of a
parked node; the drain that gives up on the event fails the run. -/

namespace QueueWorkflows

open Relation (ReflTransGen)
open Transaction (Prog Reach follow)
open Transaction.Prog (Always Course)
open Dispatcher (metaText patchMeta)
open NodePool (Handled settleEvent dispatchMaxAttempts)

/-! ### What a patch event may touch -/

/-- A row is left alone, or is the parked target and has its input spec written. -/
def Spared (runId target : String) (old new : NodeJob) : Prop :=
  new = old ∨ (old.runId = runId ∧ old.nodeId = target ∧ old.status = .awaitingInput ∧
    ∃ spec, new = { old with inputSpec := spec })

/-- No run changes, and no row comes or goes. -/
structure Isolated (runId target : String) (db after : Db) : Prop where
  runs : after.runs.rows = db.runs.rows
  submissions : after.submissions = db.submissions
  rows : List.Forall₂ (Spared runId target) db.jobs.rows after.jobs.rows

section Isolated

variable {runId target : String} {db after : Db}

theorem Isolated.refl (db : Db) : Isolated runId target db db :=
  ⟨rfl, rfl, List.forall₂_same.mpr fun _ _ => .inl rfl⟩

theorem isolated_parks :
    Parks (fun run node => run = runId ∧ node = target) (Isolated runId target) where
  refl := .refl
  setInputSpec run node inside db spec after done := by
    cases done
    obtain ⟨rfl, rfl⟩ := inside
    refine ⟨rfl, rfl, List.forall₂_map_right_iff.mpr (List.forall₂_same.mpr fun job _ => ?_)⟩
    dsimp only
    split
    · rename_i selected
      simp only [Bool.and_eq_true, beq_iff_eq] at selected
      exact .inr ⟨selected.1.1, selected.1.2, selected.2, spec, rfl⟩
    · exact .inl rfl

end Isolated

/-! ### What its callback reads -/

/-- The row of the event's node. -/
def DispatchEvent.row? (event : DispatchEvent) (db : Db) : Option NodeJob :=
  (db.jobsOf event.runId).find? fun job => job.nodeId == event.nodeId

/-- The event is that of a patch: its row is there with its marker when the callback comes to
read the rows of the run. -/
def Stands (event : DispatchEvent) (fields : Dict) : List Db → Prop
  | first :: second :: _ =>
    (first.run? event.runId).isSome = true ∧ (event.row? second).bind patchMeta = some fields
  | _ => True

/-- What copying the files comes to: on the run, the row and the row of its source node as the
first three transactions of the callback find them. -/
def copying (cfg : Config) (host : Host) (event : DispatchEvent) (fields : Dict) :
    List Db → Except PyErr Unit
  | first :: second :: third :: _ =>
    match event.kind, first.run? event.runId, event.row? second with
    | .completed, some run, some job =>
      (Dispatcher.patchCopies host run job ((third.jobsOf event.runId).find? fun other =>
        other.nodeId == metaText cfg fields "source_node")).2
    | _, _, _ => .ok ()
  | _ => .ok ()

theorem copying_eq {cfg : Config} {host : Host} {event : DispatchEvent} {fields : Dict}
    {first second third : Db} {rest : List Db} {run : RunRow} {job : NodeJob}
    (completed : event.kind = .completed) (read : first.run? event.runId = some run)
    (row : event.row? second = some job) :
    copying cfg host event fields (first :: second :: third :: rest) =
      (Dispatcher.patchCopies host run job ((third.jobsOf run.id).find? fun other =>
        other.nodeId == metaText cfg fields "source_node")).2 := by
  simp only [copying, completed, read, row, (Db.run?_mem read).2]

section Callback

variable {cfg : Config} {host : Host} {fuel : Nat} {R : Db → Db → Prop} {db last : Db}
  {trace : List (Db × Db)} {outcome : Except PyErr Unit}

theorem bumpInputSpec_returns {runId target : String} {fields : Time → List (String × Option Json)}
    (course : (Dispatcher.bumpInputSpec runId target fields).Course R db trace outcome last) :
    outcome = .ok () := by
  unfold Dispatcher.bumpInputSpec at course
  split at course
  · exact course.pure_cases.2.1
  · obtain ⟨found, -, ⟨existing, after, tail, done, -, rest⟩ | ⟨error, failed, -⟩⟩ :=
      course.commit_bind
    · split at rest
      · obtain ⟨_, -, -, ⟨_, -, same⟩ | ⟨_, failed, -⟩⟩ := rest.commit_cases
        · exact same
        · cases failed
      · exact rest.pure_cases.2.1
    · cases failed

theorem finishPatchJob_outcome {run : RunRow} {job : NodeJob} {fields : Dict}
    (course : (Dispatcher.finishPatchJob cfg host run job fields).Course R db trace outcome last) :
    ∃ found tail, trace = (found, found) :: tail ∧
      outcome = (Dispatcher.patchCopies host run job ((found.jobsOf run.id).find? fun other =>
        other.nodeId == metaText cfg fields "source_node")).2 := by
  obtain ⟨found, -, ⟨existing, after, tail, done, rfl, rest⟩ | ⟨error, failed, -⟩⟩ :=
    course.commit_bind
  · cases done
    refine ⟨found, tail, rfl, ?_⟩
    dsimp only at rest
    cases copied : (Dispatcher.patchCopies host run job ((found.jobsOf run.id).find? fun other =>
        other.nodeId == metaText cfg fields "source_node")).2 with
    | ok _ =>
      rw [copied, Prog.ofExcept_ok, Prog.bind_pure'] at rest
      exact bumpInputSpec_returns rest
    | error error =>
      rw [copied] at rest
      cases rest
      rfl
  · cases failed

/-- The callback of a completed patch: it changes what a patch may, and it raises what copying
the files does. -/
theorem completed_isolated {event : DispatchEvent} {fields : Dict} {inserted : Except PyErr Nat}
    (completed : event.kind = .completed)
    (course : (Dispatcher.onNodeCompleted cfg host event.runId event.nodeId fuel).Course R db trace
      inserted last) (stands : Stands event fields (trace.map Prod.fst)) :
    (∀ move ∈ trace, Isolated event.runId (metaText cfg fields "target_input") move.1 move.2) ∧
      inserted = (copying cfg host event fields (trace.map Prod.fst)).map fun _ => 0 := by
  obtain ⟨first, -, ⟨found, after, tail, done, rfl, rest⟩ | ⟨error, failed, -⟩⟩ :=
    course.commit_bind
  · cases done
    have alone : ∀ move ∈ [(first, first)],
        Isolated event.runId (metaText cfg fields "target_input") move.1 move.2 := by
      intro move member
      cases List.mem_singleton.mp member
      exact .refl first
    cases read : first.run? event.runId with
    | none =>
      rw [read] at rest
      obtain ⟨rfl, rfl, -⟩ := rest.pure_cases
      exact ⟨alone, rfl⟩
    | some run =>
      obtain ⟨-, named⟩ := Db.run?_mem read
      rw [read] at rest
      dsimp only at rest
      split at rest
      · obtain ⟨rfl, rfl, -⟩ := rest.pure_cases
        exact ⟨alone, rfl⟩
      · obtain ⟨second, -, ⟨existing, after, tail, done, rfl, rest⟩ | ⟨error, failed, -⟩⟩ :=
          rest.commit_bind
        · cases done
          obtain ⟨job, row, marked⟩ := Option.bind_eq_some_iff.mp stands.2
          have found : ((second.jobsOf event.runId).find? fun job => job.nodeId == event.nodeId) =
            some job := row
          rw [found, Option.bind_some, marked] at rest
          have patches : (do Dispatcher.finishPatchJob cfg host run job fields; return 0 :
              Program Nat).Always (Isolated event.runId (metaText cfg fields "target_input")) :=
            (isolated_parks.finishPatchJob ⟨named, rfl⟩).bind fun _ => trivial
          refine ⟨List.forall_mem_cons.mpr ⟨.refl first, List.forall_mem_cons.mpr
            ⟨.refl second, rest.each .refl patches⟩⟩, ?_⟩
          rcases rest.bind_cases with ⟨_, middle, copies, _, patched, returned, rfl⟩ |
            ⟨error, patched, rfl⟩
          · obtain ⟨third, tail, rfl, copied⟩ := finishPatchJob_outcome patched
            obtain ⟨rfl, rfl, -⟩ := returned.pure_cases
            exact congrArg (Except.map fun _ => 0) (copied.trans (copying_eq completed read row).symm)
          · obtain ⟨third, tail, rfl, copied⟩ := finishPatchJob_outcome patched
            exact congrArg (Except.map fun _ => 0) (copied.trans (copying_eq completed read row).symm)
        · cases failed
  · cases failed

/-- The callback of a failed patch flags the error, and nothing in it raises. -/
theorem failed_isolated {event : DispatchEvent} {fields : Dict}
    (course : (Dispatcher.onNodeFailed cfg event.runId event.nodeId).Course R db trace outcome last)
    (stands : Stands event fields (trace.map Prod.fst)) :
    (∀ move ∈ trace, Isolated event.runId (metaText cfg fields "target_input") move.1 move.2) ∧
      outcome = .ok () := by
  obtain ⟨first, -, ⟨found, after, tail, done, rfl, rest⟩ | ⟨error, raises, -⟩⟩ :=
    course.commit_bind
  · cases done
    split at rest
    · obtain ⟨rfl, rfl, -⟩ := rest.pure_cases
      exact ⟨List.forall_mem_singleton.mpr (.refl first), rfl⟩
    · obtain ⟨second, -, ⟨existing, after, tail, done, rfl, rest⟩ | ⟨error, raises, -⟩⟩ :=
        rest.commit_bind
      · cases done
        obtain ⟨run, read⟩ := Option.isSome_iff_exists.mp stands.1
        obtain ⟨job, row, marked⟩ := Option.bind_eq_some_iff.mp stands.2
        have found : ((second.jobsOf event.runId).find? fun job => job.nodeId == event.nodeId) =
          some job := row
        rw [found, Option.bind_some, marked] at rest
        have flags : (Dispatcher.flagPatchError cfg run job fields).Course R second tail outcome last := by
          rw [read] at rest
          exact rest
        have patches : (Dispatcher.flagPatchError cfg run job fields).Always
            (Isolated event.runId (metaText cfg fields "target_input")) :=
          isolated_parks.flagPatchError ⟨(Db.run?_mem read).2, rfl⟩
        refine ⟨List.forall_mem_cons.mpr ⟨.refl first, List.forall_mem_cons.mpr
          ⟨.refl second, flags.each .refl patches⟩⟩, ?_⟩
        unfold Dispatcher.flagPatchError at flags
        exact bumpInputSpec_returns flags
      · cases raises
  · cases raises

/-- The callback of a patch event. -/
theorem callback_isolated {event : DispatchEvent} {fields : Dict}
    (kind : event.kind = .completed ∨ event.kind = .failed)
    (course : (NodePool.callback cfg host fuel event).Course R db trace outcome last)
    (stands : Stands event fields (trace.map Prod.fst)) :
    (∀ move ∈ trace, Isolated event.runId (metaText cfg fields "target_input") move.1 move.2) ∧
      outcome = copying cfg host event fields (trace.map Prod.fst) := by
  unfold NodePool.callback at course
  rcases kind with completed | failed
  · rw [completed] at course
    rcases course.bind_cases with ⟨_, middle, calls, _, called, returned, rfl⟩ | ⟨error, called, rfl⟩
    · obtain ⟨rfl, rfl, rfl⟩ := returned.pure_cases
      rw [List.append_nil] at stands ⊢
      obtain ⟨isolated, same⟩ := completed_isolated completed called stands
      refine ⟨isolated, ?_⟩
      cases copied : copying cfg host event fields (calls.map Prod.fst) with
      | ok _ => rfl
      | error error =>
        rw [copied] at same
        cases same
    · obtain ⟨isolated, same⟩ := completed_isolated completed called stands
      refine ⟨isolated, ?_⟩
      cases copied : copying cfg host event fields (trace.map Prod.fst) with
      | ok _ =>
        rw [copied] at same
        cases same
      | error error =>
        rw [copied] at same
        cases same
        rfl
  · rw [failed] at course
    obtain ⟨isolated, rfl⟩ := failed_isolated course stands
    refine ⟨isolated, ?_⟩
    unfold copying
    rw [failed]
    split <;> rfl

end Callback

/-! ### What the drain makes of it -/

/-- The run is there and not over. -/
def Db.unfinished (db : Db) (runId : String) : Bool :=
  (db.run? runId).any fun run => !run.status.terminal

theorem poisonRun_runs {event : DispatchEvent} {error : PyErr} {db : Db} :
    (NodePool.poisonRun event error db).runs.rows = db.runs.rows ↔
      db.unfinished event.runId = false := by
  unfold Db.unfinished
  constructor
  · intro same
    have poisoned : (NodePool.poisonRun event error db).run? event.runId = db.run? event.runId :=
      congrArg (List.find? fun run : RunRow => run.id == event.runId) same
    cases found : db.run? event.runId with
    | none => rfl
    | some run =>
      unfold NodePool.poisonRun at poisoned
      rw [Db.run?_update, found, Option.map_some, Option.some_inj] at poisoned
      rw [Option.any_some, Bool.not_eq_false']
      cases live : run.status.terminal with
      | true => rfl
      | false =>
        rw [if_pos (by simp [(Db.run?_mem found).2, live])] at poisoned
        rw [← poisoned] at live
        cases live
  · intro ended
    refine (List.map_congr_left fun run member => if_neg fun selected => ?_).trans (List.map_id _)
    simp only [Bool.and_eq_true, beq_iff_eq] at selected
    rw [← selected.1, Db.run?_of_mem member, Option.any_some] at ended
    rw [selected.2] at ended
    cases ended

/-- Only the settling of a last delivery that raised touches a run that is not ended. -/
theorem settleEvent_isolated {one : Handled} {target : String} {db : Db} :
    Isolated one.event.runId target db (settleEvent db one) ↔
      ¬ (one.returned = false ∧ dispatchMaxAttempts ≤ one.event.attempts + 1 ∧
        db.unfinished one.event.runId = true) := by
  have kept {after : Db} (runs : after.runs.rows = db.runs.rows)
      (submissions : after.submissions = db.submissions) (jobs : after.jobs = db.jobs) :
      Isolated one.event.runId target db after :=
    ⟨runs, submissions, jobs ▸ List.forall₂_same.mpr fun _ _ => .inl rfl⟩
  cases one with
  | succeeded event => exact iff_of_true (kept rfl rfl rfl) fun given => Bool.noConfusion given.1
  | raised event error =>
    simp only [settleEvent, Handled.event, Handled.returned, true_and]
    by_cases spent : dispatchMaxAttempts ≤ event.attempts + 1
    · rw [if_pos spent]
      constructor
      · intro isolated given
        have ended := poisonRun_runs.mp isolated.runs
        exact Bool.noConfusion (ended.symm.trans given.2)
      · intro spared
        have ended : db.unfinished event.runId = false :=
          Bool.eq_false_iff.mpr fun live => spared ⟨spent, live⟩
        exact kept (poisonRun_runs.mpr ended) rfl rfl
    · rw [if_neg spent]
      exact iff_of_true (kept rfl rfl rfl) fun given => spent given.1

/-! ### A patch stays a patch -/

/-- Runs stay, and rows with their inputs. -/
structure KeepsInputs (before after : Db) : Prop where
  runs : ∀ run ∈ before.runs.rows, ∃ now ∈ after.runs.rows, now.id = run.id
  rows : ∀ job ∈ before.jobs.rows, ∃ now ∈ after.jobs.rows, now.key = job.key ∧
    now.inputs = job.inputs

/-- The row of the event's node is there, with the marker of a patch. -/
def Carries (event : DispatchEvent) (fields : Dict) (db : Db) : Prop :=
  (∃ run ∈ db.runs.rows, run.id = event.runId) ∧
  ∃ job ∈ db.jobs.rows, job.runId = event.runId ∧ job.nodeId = event.nodeId ∧
    patchMeta job = some fields

theorem keepsInputs_of_update {before after : Db} {selects : NodeJob → Bool}
    {change : NodeJob → NodeJob} (runs : after.runs = before.runs)
    (jobs : after.jobs.rows = before.jobs.rows.map fun job => if selects job then change job else job)
    (key : ∀ job, (change job).key = job.key) (inputs : ∀ job, (change job).inputs = job.inputs) :
    KeepsInputs before after := by
  refine ⟨fun run present => ⟨run, runs ▸ present, rfl⟩, fun job present => ?_⟩
  refine ⟨_, jobs ▸ List.mem_map_of_mem present, ?_⟩
  split
  · exact ⟨key job, inputs job⟩
  · exact ⟨rfl, rfl⟩

theorem keepsInputs_frame {scope : String → Prop} : Advances scope KeepsInputs where
  refl db := ⟨fun run present => ⟨run, present, rfl⟩, fun job present => ⟨job, present, rfl, rfl⟩⟩
  insert db job jobs _ inserted := by
    refine ⟨fun run present => ⟨run, present, rfl⟩, fun old present => ⟨old, ?_, rfl, rfl⟩⟩
    rw [Relational.Table.rows_insert? inserted]
    exact List.mem_append_left _ present
  setInputSpec runId nodeId _ db spec after done := by
    cases done
    exact keepsInputs_of_update rfl rfl (fun _ => rfl) fun _ => rfl
  updateRun runId _ db fields after done := by
    cases done
    refine ⟨fun run present => ⟨_, List.mem_map_of_mem present, ?_⟩,
      fun job present => ⟨job, present, rfl, rfl⟩⟩
    split <;> rfl

section Stays

variable {event : DispatchEvent} {fields : Dict} {before after : Db}

theorem Carries.stays (keeps : KeepsInputs before after) (carries : Carries event fields before) :
    Carries event fields after := by
  obtain ⟨⟨run, present, named⟩, job, row, mine, node, marked⟩ := carries
  obtain ⟨now, stored, same⟩ := keeps.runs run present
  obtain ⟨later, kept, key, inputs⟩ := keeps.rows job row
  have cell : (later.runId, later.nodeId) = (job.runId, job.nodeId) := congrArg Prod.snd key
  refine ⟨⟨now, stored, same.trans named⟩, later, kept, ?_, ?_, ?_⟩
  · exact (congrArg Prod.fst cell).trans mine
  · exact (congrArg Prod.snd cell).trans node
  · unfold patchMeta
    rw [inputs]
    exact marked

theorem Carries.stands {states : List Db} (carries : ∀ db ∈ states, Carries event fields db) :
    Stands event fields states := by
  match states with
  | [] | [_] => trivial
  | first :: second :: _ =>
    obtain ⟨⟨run, present, named⟩, -⟩ := carries first List.mem_cons_self
    obtain ⟨-, job, row, mine, node, marked⟩ :=
      carries second (List.mem_cons_of_mem _ List.mem_cons_self)
    refine ⟨Option.isSome_iff_exists.mpr ⟨run, named ▸ Db.run?_of_mem present⟩, ?_⟩
    rw [DispatchEvent.row?, Db.find_node row mine node]
    exact marked

theorem handleEvent_keepsInputs {cfg : Config} {host : Host} {fuel : Nat} {event : DispatchEvent} :
    (NodePool.handleEvent cfg host fuel event).Always KeepsInputs := by
  have frame : Advances (fun _ => True) KeepsInputs := keepsInputs_frame
  have calls : (NodePool.callback cfg host fuel event).Always KeepsInputs := by
    unfold NodePool.callback
    split
    · exact (frame.onNodeCompleted trivial).bind fun _ => trivial
    · refine frame.toParks.onNodeFailed (fun _ _ => trivial) (fun db after done => ?_)
        fun db fields after done => frame.updateRun _ trivial db fields after done
      cases done
      exact keepsInputs_of_update rfl rfl (fun _ => rfl) fun _ => rfl
    · exact frame.toParks.onNodeAwaitingInput trivial
  exact Always.handle (calls.bind fun _ => trivial) fun _ => trivial

end Stays

/-! ### A pass -/

/-- One event of a pass: what became of it, the transactions of its callback, and those of
the pass that count it. -/
structure Delivery where
  handled : Handled
  trace : List (Db × Db)
  counting : List (Db × Db)

namespace Delivery

def event (delivery : Delivery) : DispatchEvent := delivery.handled.event

/-- Its transactions. -/
def moves (delivery : Delivery) : List (Db × Db) := delivery.trace ++ delivery.counting

/-- The states that the transactions of its callback find. -/
def states (delivery : Delivery) : List Db := delivery.trace.map Prod.fst

/-- Its transactions, and its share of the bookkeeping, which finds `db`, only do what a patch
may. -/
def Isolates (cfg : Config) (fields : Dict) (db : Db) (delivery : Delivery) : Prop :=
  (∀ move ∈ delivery.moves,
    Isolated delivery.event.runId (metaText cfg fields "target_input") move.1 move.2) ∧
  Isolated delivery.event.runId (metaText cfg fields "target_input") db
    (settleEvent db delivery.handled)

/-- It is the event's last delivery, its files cannot be copied, and its run is not over. -/
def GivesUp (cfg : Config) (host : Host) (fields : Dict) (db : Db) (delivery : Delivery) : Prop :=
  dispatchMaxAttempts ≤ delivery.event.attempts + 1 ∧
    (∃ error, copying cfg host delivery.event fields delivery.states = .error error) ∧
    db.unfinished delivery.event.runId = true

end Delivery

/-- The deliveries of a batch, one after the other. -/
inductive Delivered (cfg : Config) (host : Host) (fuel : Nat) (R : Db → Db → Prop) :
    List DispatchEvent → Db → List Delivery → Db → Prop
  | nothing (db : Db) : Delivered cfg host fuel R [] db [] db
  | delivers {event : DispatchEvent} {rest : List DispatchEvent} {db middle found last : Db}
      {handled : Handled} {poisoned : List String} {trace counting : List (Db × Db)}
      {deliveries : List Delivery}
      (called : (NodePool.handleEvent cfg host fuel event).Course R db trace (.ok handled) middle)
      (counted : (NodePool.lockRun handled).Course R middle counting (.ok poisoned) found)
      (others : Delivered cfg host fuel R rest found deliveries last) :
      Delivered cfg host fuel R (event :: rest) db (⟨handled, trace, counting⟩ :: deliveries) last

section Pass

variable {cfg : Config} {host : Host} {fuel : Nat} {R : Db → Db → Prop} {db last : Db}
  {batch : List DispatchEvent} {trace : List (Db × Db)}

theorem handleEvents_delivered {locked : List String} {outcome : Except PyErr (List Handled)}
    (course : (NodePool.handleEvents cfg host fuel locked batch).Course R db trace outcome last) :
    ∃ deliveries, outcome = .ok (deliveries.map Delivery.handled) ∧
      trace = deliveries.flatMap Delivery.moves ∧
      Delivered cfg host fuel R batch db deliveries last := by
  induction batch generalizing db trace outcome last locked with
  | nil =>
    obtain ⟨rfl, rfl, rfl⟩ := course.pure_cases
    exact ⟨[], rfl, rfl, .nothing _⟩
  | cons event rest ih =>
    unfold NodePool.handleEvents at course
    rcases course.bind_cases with ⟨one, middle, _, _, first, counts, rfl⟩ | ⟨_, first, -⟩
    · rcases counts.bind_cases with ⟨poisoned, found, _, _, counted, continues, rfl⟩ |
        ⟨_, counted, -⟩
      · rcases continues.bind_cases with ⟨handled, later, _, _, second, returned, rfl⟩ |
          ⟨_, second, -⟩
        · obtain ⟨rfl, rfl, rfl⟩ := returned.pure_cases
          obtain ⟨deliveries, same, rfl, others⟩ := ih second
          cases same
          refine ⟨⟨one, _, _⟩ :: deliveries, rfl, ?_, .delivers first.of_awaiting counted others⟩
          rw [List.append_nil, List.flatMap_cons, Delivery.moves, List.append_assoc]
        · obtain ⟨_, ⟨⟩, -⟩ := ih second
      · obtain ⟨⟨_, ⟨⟩⟩, -⟩ := lockRun_cases counted
    · rcases handleEvent_cases first.of_awaiting with ⟨⟨⟩, -⟩ | ⟨_, ⟨⟩, -⟩

/-- A pass that has come to its end: the deliveries, and then the bookkeeping. -/
theorem drain_delivered {outcome : Except PyErr Unit}
    (course : (NodePool.drainDispatchEvents cfg host fuel batch).Course R db trace outcome last) :
    ∃ deliveries tried found, Delivered cfg host fuel R batch db deliveries tried ∧
      ReflTransGen R tried found ∧ trace = deliveries.flatMap Delivery.moves ++ [(found, last)] ∧
      last = (deliveries.map Delivery.handled).foldl settleEvent found := by
  unfold NodePool.drainDispatchEvents at course
  rcases course.bind_cases with ⟨handled, tried, _, _, first, second, rfl⟩ | ⟨_, first, -⟩
  · obtain ⟨deliveries, same, rfl, delivered⟩ := handleEvents_delivered first
    cases same
    obtain ⟨found, moved, rfl, ⟨_, done, rfl⟩ | ⟨_, failed, -⟩⟩ := second.commit_cases
    · cases done
      exact ⟨deliveries, tried, found, delivered, moved, rfl, rfl⟩
    · cases failed
  · obtain ⟨_, ⟨⟩, -⟩ := handleEvents_delivered first

/-- One delivery of a patch event. -/
theorem delivery_isolates_iff {event : DispatchEvent} {delivery : Delivery} {fields : Dict}
    {booked : Db}
    (course : (NodePool.handleEvent cfg host fuel event).Course R db delivery.trace
      (.ok delivery.handled) last)
    (reads : ∀ move ∈ delivery.counting, move.1 = move.2)
    (kind : delivery.event.kind = .completed ∨ delivery.event.kind = .failed)
    (stands : Stands delivery.event fields delivery.states) :
    delivery.Isolates cfg fields booked ↔ ¬ delivery.GivesUp cfg host fields booked := by
  have settles := @settleEvent_isolated delivery.handled (metaText cfg fields "target_input") booked
  have whole (isolated : ∀ move ∈ delivery.trace, Isolated delivery.event.runId
      (metaText cfg fields "target_input") move.1 move.2) : ∀ move ∈ delivery.moves,
        Isolated delivery.event.runId (metaText cfg fields "target_input") move.1 move.2 := by
    intro move member
    rcases List.mem_append.mp member with own | read
    · exact isolated move own
    · exact reads move read ▸ .refl _
  rcases handleEvent_cases course with ⟨same, called⟩ | ⟨error, same, called⟩
  · cases delivery with | mk handled trace counting =>
    cases same
    obtain ⟨isolated, copied⟩ := callback_isolated kind called stands
    refine iff_of_true ⟨whole isolated, settles.mpr fun given => Bool.noConfusion given.1⟩ ?_
    rintro ⟨-, ⟨error, fails⟩, -⟩
    cases copied.trans fails
  · cases delivery with | mk handled trace counting =>
    cases same
    obtain ⟨isolated, copied⟩ := callback_isolated kind called stands
    constructor
    · rintro ⟨-, settled⟩ ⟨spent, -, live⟩
      exact settles.mp settled ⟨rfl, spent, live⟩
    · intro spared
      refine ⟨whole isolated, settles.mpr ?_⟩
      rintro ⟨-, spent, live⟩
      exact spared ⟨spent, ⟨error, copied.symm⟩, live⟩

/-- Each delivery is a course of its own. -/
theorem Delivered.course {deliveries : List Delivery} {delivery : Delivery}
    (delivered : Delivered cfg host fuel R batch db deliveries last)
    (inside : delivery ∈ deliveries) : (∃ event ∈ batch, ∃ before after,
      (NodePool.handleEvent cfg host fuel event).Course R before delivery.trace
        (.ok delivery.handled) after) ∧ ∀ move ∈ delivery.counting, move.1 = move.2 := by
  induction delivered with
  | nothing => exact absurd inside List.not_mem_nil
  | delivers called counted _ ih =>
    rcases List.mem_cons.mp inside with rfl | later
    · exact ⟨⟨_, List.mem_cons_self, _, _, called⟩, (lockRun_cases counted).2.2⟩
    · obtain ⟨⟨event, member, others⟩, reads⟩ := ih later
      exact ⟨⟨event, List.mem_cons_of_mem _ member, others⟩, reads⟩

/-- As long as nobody else takes its row away, the event of a patch stays one. The drain itself
does not. -/
theorem Delivered.stands {deliveries : List Delivery} {delivery : Delivery} {fields : Dict}
    (delivered : Delivered cfg host fuel R batch db deliveries last)
    (inside : delivery ∈ deliveries) (carries : Carries delivery.event fields db)
    (others : ∀ before after, R before after → Carries delivery.event fields before →
      Carries delivery.event fields after) :
    Stands delivery.event fields delivery.states := by
  induction delivered with
  | nothing => exact absurd inside List.not_mem_nil
  | delivers called counted _ ih =>
    rcases List.mem_cons.mp inside with rfl | later
    · refine Carries.stands fun state found => ?_
      obtain ⟨move, member, rfl⟩ := List.mem_map.mp found
      exact called.finds others (fun _ _ keeps => Carries.stays keeps) handleEvent_keepsInputs
        carries move member
    · refine ih later (Prog.stays _ others (lockRun_cases counted).2.1
        (Prog.stays _ (fun before after move carries => ?_)
          (called.moves handleEvent_keepsInputs) carries))
      rcases move with move | keeps
      · exact others before after move carries
      · exact carries.stays keeps

/-- **Patch isolation.** In every pass of the drain, with anyone else moving in between, the
deliveries of patch events change nothing but the input spec of their parked target, exactly
where the pass does not give up on them. -/
theorem patch_isolated_iff {outcome : Except PyErr Unit}
    (course : (NodePool.drainDispatchEvents cfg host fuel batch).Course R db trace outcome last) :
    ∃ deliveries tried found, Delivered cfg host fuel R batch db deliveries tried ∧
      ReflTransGen R tried found ∧ trace = deliveries.flatMap Delivery.moves ++ [(found, last)] ∧
      last = (deliveries.map Delivery.handled).foldl settleEvent found ∧
      ∀ (front : List Delivery) (delivery : Delivery) (back : List Delivery) (fields : Dict),
        deliveries = front ++ delivery :: back →
        (delivery.event.kind = .completed ∨ delivery.event.kind = .failed) →
        Stands delivery.event fields delivery.states →
        let booked := (front.map Delivery.handled).foldl settleEvent found
        (delivery.Isolates cfg fields booked ↔ ¬ delivery.GivesUp cfg host fields booked) := by
  obtain ⟨deliveries, tried, found, delivered, moved, whole, settled⟩ := drain_delivered course
  refine ⟨deliveries, tried, found, delivered, moved, whole, settled, ?_⟩
  intro front delivery back fields split kind stands
  have inside : delivery ∈ deliveries := split ▸ List.mem_append_right front List.mem_cons_self
  obtain ⟨⟨event, -, before, after, called⟩, reads⟩ := delivered.course inside
  exact delivery_isolates_iff called reads kind stands

end Pass

/-! ### A file that cannot be copied -/

def Sample.textual : Config :=
  { Sample.config with strOf := fun value => match value with | .str text => text | _ => "" }

/-- Its steps write the one file, and no file can be copied. -/
def Sample.refusing (path : String) : Host :=
  { Sample.host with
    isFile := fun _ _ => .ok true
    copyFile := fun _ _ _ => .error ⟨.other "PermissionError", path⟩
    invoke := fun _ _ =>
      .ok (.dict [("context_delta", .dict [("file", .json (.str path))])]) }

/-- The input is parked, and the step beside it and its patch are executed. -/
def Sample.patchExecuted : List Label :=
  List.flatten [
    [.insertRun { Sample.run with outDir := some "/out" }, .expand (Sample.refusing "") 2],
    List.replicate 7 (.advance 0),
    [.claimCpu { host := "a" } (Sample.refusing "") false, .advance 1],
    [.claimCpu { host := "a" } (Sample.refusing "/out/left.png") false],
    List.replicate 5 (.advance 2),
    [.enqueuePatch {
      runId := "r"
      nodeId := "left/n-patch"
      nodeModule := "n"
      queue := .cpu
      inputs := [("__patch__", .obj [("source_node", .str "left/n"), ("target_input", .str "ask")])]
      project := "" }],
    [.claimCpu { host := "a" } (Sample.refusing "/out/patch.png") false],
    List.replicate 5 (.advance 3)]

/-- The first pass drains all three events, the next eight only that of the patch. -/
def Sample.copyRefused : List Label :=
  List.flatten [
    Sample.patchExecuted, [.drain (Sample.refusing "") 2], List.replicate 11 (.advance 4),
    (List.range 8).flatMap fun pass =>
      .drain (Sample.refusing "") 2 :: List.replicate 4 (.advance (5 + pass))]

/-- Nine deliveries of the patch's event have failed. -/
def Sample.nineRefused : Sys :=
  (follow (step Sample.textual) anyStep Sys.empty Sample.copyRefused).getD Sys.empty

def Sample.tenthDelivery : List DispatchEvent :=
  NodePool.drainBatch Sample.textual [] Sample.nineRefused.store

theorem nineRefused_reached :
    Reach (step Sample.textual) anyStep Sys.empty Sample.nineRefused :=
  Reach.follow_getD Sample.copyRefused (by decide +kernel)

/-- The tenth delivery finds the run alive, and settling it fails the run. -/
def Sample.failsRun (event : DispatchEvent) : Bool :=
  match (NodePool.handleEvent Sample.textual (Sample.refusing "") 2 event).run
      Sample.nineRefused.store with
  | (some (.ok one), tried) =>
    tried.statusOf "r" == some .running && (settleEvent tried one).statusOf "r" == some .failed
  | _ => false

theorem tenthDelivery_fails : ∃ event one tried trace,
    Sample.tenthDelivery = [event] ∧ event.kind = .completed ∧
    (∃ fields, Carries event fields Sample.nineRefused.store) ∧
    (NodePool.handleEvent Sample.textual (Sample.refusing "") 2 event).Course (fun _ _ => False)
      Sample.nineRefused.store trace (.ok one) tried ∧
    tried.statusOf "r" = some .running ∧ (settleEvent tried one).statusOf "r" = some .failed := by
  obtain ⟨event, batch⟩ := List.length_eq_one_iff.mp
    (by decide +kernel : Sample.tenthDelivery.length = 1)
  have passes (test : DispatchEvent → Bool) (all : Sample.tenthDelivery.all test = true) :
      test event = true := by
    rw [batch] at all
    exact List.all_eq_true.mp all event List.mem_cons_self
  have completed : event.kind = .completed :=
    beq_iff_eq.mp (passes (fun event => event.kind == .completed) (by decide +kernel))
  have run := passes (fun event => Sample.nineRefused.store.runs.rows.any fun run =>
    run.id == event.runId) (by decide +kernel)
  have row := passes (fun event => Sample.nineRefused.store.jobs.rows.any fun job =>
    job.runId == event.runId && (job.nodeId == event.nodeId && (patchMeta job).isSome))
    (by decide +kernel)
  have fails := passes Sample.failsRun (by decide +kernel)
  simp only [List.any_eq_true, Bool.and_eq_true, beq_iff_eq] at run row
  obtain ⟨job, stored, mine, node, marker⟩ := row
  obtain ⟨fields, marked⟩ := Option.isSome_iff_exists.mp marker
  unfold Sample.failsRun at fails
  split at fails
  · rename_i one tried ran
    rw [Bool.and_eq_true, beq_iff_eq, beq_iff_eq] at fails
    obtain ⟨trace, course⟩ := Course.of_run (R := fun _ _ => False) (congrArg Prod.fst ran)
    rw [ran] at course
    exact ⟨event, one, tried, trace, batch, completed,
      ⟨fields, run, job, stored, mine, node, marked⟩, course, fails⟩
  · cases fails

/-- A patch whose file cannot be copied takes the parked run down with it. -/
theorem refused_copy_fails_run : ¬ ∀ (cfg : Config) (host : Host) (fuel : Nat)
    (R : Db → Db → Prop) (sys : Sys) (deliveries : List Delivery) (tried found : Db),
    Reach (step cfg) anyStep Sys.empty sys →
    Delivered cfg host fuel R (NodePool.drainBatch cfg [] sys.store) sys.store deliveries tried →
    ReflTransGen R tried found →
    ∀ (front : List Delivery) (delivery : Delivery) (back : List Delivery) (fields : Dict),
      deliveries = front ++ delivery :: back →
      (delivery.event.kind = .completed ∨ delivery.event.kind = .failed) →
      Stands delivery.event fields delivery.states →
      delivery.Isolates cfg fields ((front.map Delivery.handled).foldl settleEvent found) := by
  intro isolates
  obtain ⟨event, one, tried, trace, batch, completed, ⟨fields, carries⟩, course, live, fails⟩ :=
    tenthDelivery_fails
  have named : one.event = event := by
    rcases handleEvent_cases course with ⟨⟨⟩, -⟩ | ⟨_, ⟨⟩, -⟩
    · rfl
    · rfl
  obtain ⟨counting, poisoned, counts⟩ : ∃ counting poisoned,
      (NodePool.lockRun one).Course (fun _ _ => False) tried counting (.ok poisoned) tried :=
    lockRun_alone
  have delivered : Delivered Sample.textual (Sample.refusing "") 2 (fun _ _ => False)
      Sample.tenthDelivery Sample.nineRefused.store [⟨one, trace, counting⟩] tried :=
    batch ▸ .delivers course counts (.nothing tried)
  rw [← named] at carries completed
  have stands : Stands one.event fields (trace.map Prod.fst) :=
    delivered.stands List.mem_cons_self carries fun _ _ never => never.elim
  have isolated := isolates _ _ _ _ _ _ tried tried nineRefused_reached delivered .refl
    [] ⟨one, trace, counting⟩ [] fields rfl (.inl completed) stands
  have same : (settleEvent tried one).statusOf "r" = tried.statusOf "r" :=
    congrArg (fun rows => (rows.find? fun run : RunRow => run.id == "r").map RunRow.status)
      isolated.2.runs
  exact absurd (fails.symm.trans (same.trans live)) (by decide)

/-- Every file is there, and is copied. -/
def Sample.accepting : Host :=
  { Sample.refusing "" with copyFile := fun _ _ _ => .ok () }

/-- The tenth delivery once more, with a host that copies. -/
theorem accepted_copy_isolated : ∃ deliveries tried found,
    Delivered Sample.textual Sample.accepting 2 (fun _ _ => False) Sample.tenthDelivery
      Sample.nineRefused.store deliveries tried ∧
    ∀ (front : List Delivery) (delivery : Delivery) (back : List Delivery) (fields : Dict),
      deliveries = front ++ delivery :: back →
      (delivery.event.kind = .completed ∨ delivery.event.kind = .failed) →
      Stands delivery.event fields delivery.states →
      (delivery.Isolates Sample.textual fields
          ((front.map Delivery.handled).foldl settleEvent found) ↔
        ¬ delivery.GivesUp Sample.textual Sample.accepting fields
          ((front.map Delivery.handled).foldl settleEvent found)) := by
  obtain ⟨outcome, ran⟩ := Option.isSome_iff_exists.mp (by decide +kernel :
    ((NodePool.drainDispatchEvents Sample.textual Sample.accepting 2 Sample.tenthDelivery).run
      Sample.nineRefused.store).1.isSome = true)
  obtain ⟨trace, course⟩ := Course.of_run (R := fun _ _ => False) ran
  obtain ⟨deliveries, tried, found, delivered, -, -, -, isolated⟩ := patch_isolated_iff course
  exact ⟨deliveries, tried, found, delivered, isolated⟩

end QueueWorkflows
