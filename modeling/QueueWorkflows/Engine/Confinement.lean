import QueueWorkflows.Engine.Outbox
import QueueWorkflows.Engine.Projects

/-! Every path of the engine stays within the project it was started for: the runs it
was given are the project's, what it reads of them says so, and each of its statements
goes by their ids or by ids read under them. -/

namespace QueueWorkflows

open Transaction (Prog Terms)
open Transaction.Prog (Always Outline commit ofExcept)

/-- A path counts on what no client of the broker changes, and on its footing. -/
def tenantTerms (project : String) (footing : Footing) : Terms Db Site where
  stable _ held := ∀ db after, Tenanted db after → held db → held after
  given _ db _ := WellTagged db ∧ footing.Holds project db
  safe _ _ := True
  good := Confined project
  idle _ _ _ _ _ := trivial
  void _ _ _ _ impossible := impossible

/-- The program stays within the project. -/
abbrev Keeps {α : Type} (project : String) (footing : Footing) (program : Program α) : Prop :=
  program.Outline (tenantTerms project footing) (fun _ _ => True) fun _ => True

section Paths

variable {project : String} {footing : Footing} {cfg : Config} {host : Host} {fuel : Nat}
  {stale : List String} {runId : String} {run : RunRow}

theorem keeps_pure {α : Type} (value : α) : Keeps project footing (pure value) :=
  fun _ _ => trivial

theorem keeps_raise {α : Type} (error : PyErr) :
    Keeps (α := α) project footing (.raise error) :=
  fun _ _ => trivial

theorem keeps_ofExcept {α β : Type} {result : Except PyErr α} {rest : α → Program β}
    (returns : ∀ value, Keeps project footing (rest value)) :
    Keeps project footing (ofExcept result >>= rest) :=
  Outline.ofExcept_bind (fun value _ => returns value) fun _ _ _ => trivial

theorem keeps_commit {α : Type} {site : Site} {act : Txn α}
    (commits : ∀ db value after, WellTagged db → footing.Holds project db →
      act db = .ok (value, after) → Confined project db after) :
    Keeps project footing (commit site act) :=
  Outline.commit (fun _ _ _ _ => trivial) (fun _ _ => trivial)
    (fun db value after _ given done => ⟨commits db value after given.1 given.2 done, trivial⟩)
    fun _ _ _ => trivial

theorem keeps_listJobs {site : Site} :
    Keeps project footing (commit site (NodeQueue.listJobsForRun runId)) := by
  refine keeps_commit fun db rows after _ _ done => ?_
  cases done
  exact .refl project db

theorem keeps_readSiblings {site : Site} :
    Keeps project footing (Dispatcher.readSiblings site run) :=
  keeps_listJobs.caught fun _ => keeps_pure _

/-- What is read of a run of the project says whose it is. -/
theorem keeps_getRun {α : Type} {site : Site} {rest : Option RunRow → Program α}
    (mine : footing.runs runId) (absent : Keeps project footing (rest none))
    (found : ∀ run, run.id = runId → run.project = project →
      Keeps project footing (rest (some run))) :
    Keeps project footing (commit site (RunStore.getRun runId) >>= rest) := by
  refine Outline.commit_bind (fun _ _ _ _ => trivial) (fun _ _ => trivial) ?_ fun _ _ _ => trivial
  intro db row after _ given done
  cases done
  refine ⟨.refl project db, fun _ => True, trivial, ?_⟩
  cases read : db.run? runId with
  | none => exact absent
  | some run =>
    exact found run (Db.run?_mem read).2 ((given.2.runs runId mine).project read)

/-! ### Expansion -/

theorem confined_enqueue {new : NodeQueue.NewJob} {db after : Db} {id : Nat}
    (tagged : new.project = project) (owns : Owns project new.runId db)
    (done : NodeQueue.enqueueNodeJob new db = .ok (id, after)) : Confined project db after := by
  unfold NodeQueue.enqueueNodeJob at done
  split at done
  · cases done
  · exact confined_insertJob (fun _ _ => rfl) tagged owns done

theorem keeps_dispatchNode {existing : List NodeJob} {node : DagNode}
    (mine : footing.runs run.id) (tagged : run.project = project) :
    Keeps project footing (Dispatcher.dispatchNode cfg host stale run existing node) := by
  refine keeps_ofExcept fun skip => ?_
  split
  · refine Outline.seq (keeps_commit fun db id after _ holds done => ?_) fun _ => keeps_pure _
    exact confined_insertJob (fun _ _ => rfl) tagged (holds.runs _ mine) done
  · unfold Dispatcher.enqueue
    split
    · refine Outline.seq (keeps_commit fun db id after _ holds done => ?_) fun _ => keeps_pure _
      exact confined_enqueue tagged (holds.runs _ mine) done
    · refine keeps_readSiblings.seq fun siblings => keeps_ofExcept fun context => ?_
      refine keeps_ofExcept fun resolved => ?_
      refine Outline.seq (keeps_commit fun db id after _ holds done => ?_) fun _ => keeps_pure _
      exact confined_enqueue tagged (holds.runs _ mine) done

theorem keeps_dispatchReady {existing : List NodeJob} {ready : List DagNode}
    (mine : footing.runs run.id) (tagged : run.project = project) :
    Keeps project footing (Dispatcher.dispatchReady cfg host stale run existing ready) := by
  induction ready with
  | nil => exact keeps_pure _
  | cons node rest ih =>
    exact (keeps_dispatchNode mine tagged).seq fun _ => ih.seq fun _ => keeps_pure _

theorem keeps_processReady {wf : Workflow} (mine : footing.runs run.id)
    (tagged : run.project = project) :
    Keeps project footing (Dispatcher.processReady cfg host stale wf run fuel) := by
  induction fuel with
  | zero => trivial
  | succ fuel ih =>
    refine keeps_listJobs.seq fun existing => keeps_ofExcept fun nodes => ?_
    dsimp only
    split
    · exact keeps_pure _
    · exact (keeps_dispatchReady mine tagged).seq fun _ => ih.seq fun _ => keeps_pure _

theorem confined_updateRun {fields : RunStore.RunUpdate} {db after : Db}
    (owns : Owns project runId db)
    (done : RunStore.updateRun runId fields db = .ok ((), after)) : Confined project db after := by
  cases done
  refine confined_updateRuns (fun run member selected => ?_) fun _ => rfl
  exact Owns.unique ⟨run, member, by simpa using selected, rfl⟩ owns

/-- `update_run` on a run of the project, with fields that may depend on the time. -/
theorem keeps_updateRun {site : Site} {fields : Db → RunStore.RunUpdate}
    (mine : footing.runs runId) :
    Keeps project footing (commit site fun db => RunStore.updateRun runId (fields db) db) :=
  keeps_commit fun _ _ _ _ holds done => confined_updateRun (holds.runs runId mine) done

theorem keeps_startRun (mine : footing.runs runId) :
    Keeps project footing (Dispatcher.startRun cfg host stale runId fuel) := by
  refine keeps_getRun mine (keeps_raise _) fun run named tagged => ?_
  refine keeps_ofExcept fun wf => ?_
  cases Dispatcher.assertGpuNodesDeclareModel cfg wf run with
  | ok _ => exact keeps_processReady (named ▸ mine) tagged
  | error error =>
    dsimp only
    split
    · exact (keeps_updateRun mine).seq fun _ => keeps_pure _
    · exact keeps_raise _

/-! ### Callbacks -/

/-- An update of rows of a run of the project. -/
theorem confined_updateRunJobs {selects : NodeJob → Bool} {change : NodeJob → NodeJob}
    {keeps : ∀ job, (change job).key = job.key} {db : Db} (tagged : WellTagged db)
    (owns : Owns project runId db) (inside : ∀ job, selects job = true → job.runId = runId)
    (same : ∀ job, (change job).project = job.project) :
    Confined project db { db with jobs := db.jobs.update selects change keeps } := by
  refine confined_updateJobs (fun job member selected => ?_) same
  exact tagged.own member (inside job selected ▸ owns)

theorem confined_setInputSpec {nodeId : String} {spec : Option Json} {db after : Db}
    (tagged : WellTagged db) (owns : Owns project runId db)
    (done : NodeQueue.setInputSpec runId nodeId spec db = .ok ((), after)) :
    Confined project db after := by
  cases done
  refine confined_updateRunJobs tagged owns (fun job selected => ?_) fun _ => rfl
  simp only [Bool.and_eq_true, beq_iff_eq] at selected
  exact selected.1.1

theorem keeps_bumpInputSpec {target : String} {fields : Time → List (String × Option Json)}
    (mine : footing.runs runId) :
    Keeps project footing (Dispatcher.bumpInputSpec runId target fields) := by
  unfold Dispatcher.bumpInputSpec
  split
  · exact keeps_pure _
  · refine keeps_listJobs.seq fun existing => ?_
    split
    · exact keeps_commit fun db _ after tagged holds done =>
        confined_setInputSpec tagged (holds.runs runId mine) done
    · exact keeps_pure _

theorem keeps_finishPatchJob {job : NodeJob} {fields : Dict} (mine : footing.runs run.id) :
    Keeps project footing (Dispatcher.finishPatchJob cfg host run job fields) := by
  exact keeps_listJobs.seq fun existing => keeps_ofExcept fun _ => keeps_bumpInputSpec mine

theorem keeps_advanceRun (mine : footing.runs runId) (named : run.id = runId)
    (tagged : run.project = project) :
    Keeps project footing (Dispatcher.advanceRun cfg host runId run fuel) := by
  refine keeps_ofExcept fun wf => (keeps_processReady (named ▸ mine) tagged).seq fun _ => ?_
  refine keeps_listJobs.seq fun existing => keeps_ofExcept fun nodes => ?_
  refine Outline.seq ?_ fun _ => keeps_pure _
  unfold Dispatcher.completeIfSatisfied
  split
  · exact keeps_updateRun mine
  · exact keeps_pure _

theorem keeps_onNodeCompleted {nodeId : String} (mine : footing.runs runId) :
    Keeps project footing (Dispatcher.onNodeCompleted cfg host runId nodeId fuel) := by
  refine keeps_getRun mine (keeps_pure _) fun run named tagged => ?_
  dsimp only
  split
  · exact keeps_pure _
  · refine keeps_listJobs.seq fun existing => ?_
    split
    · exact (keeps_finishPatchJob (named ▸ mine)).seq fun _ => keeps_pure _
    · exact keeps_advanceRun mine named tagged

theorem confined_cancelQueued {db after : Db} (tagged : WellTagged db)
    (owns : Owns project runId db)
    (done : NodeQueue.cancelQueuedJobsForRun runId db = .ok ((), after)) :
    Confined project db after := by
  cases done
  refine confined_updateRunJobs tagged owns (fun job selected => ?_) fun _ => rfl
  simp only [Bool.and_eq_true, beq_iff_eq] at selected
  exact selected.1

theorem keeps_onNodeFailed {nodeId : String} (mine : footing.runs runId) :
    Keeps project footing (Dispatcher.onNodeFailed cfg runId nodeId) := by
  refine keeps_getRun mine ?_ fun run named tagged => ?_
  · simp only [Option.map_none, Option.any_none, Bool.false_eq_true, if_false]
    refine keeps_listJobs.seq fun existing => ?_
    split
    · rename_i impossible
      cases impossible
    · refine Outline.seq (keeps_commit fun db _ after tagged holds done => ?_)
        fun _ => keeps_updateRun mine
      exact confined_cancelQueued tagged (holds.runs runId mine) done
  · split
    · exact keeps_pure _
    · refine keeps_listJobs.seq fun existing => ?_
      split
      · rename_i job fields row _ same
        cases same
        unfold Dispatcher.flagPatchError
        exact keeps_bumpInputSpec (named ▸ mine)
      · refine Outline.seq (keeps_commit fun db _ after tagged holds done => ?_)
          fun _ => keeps_updateRun mine
        exact confined_cancelQueued tagged (holds.runs runId mine) done

theorem keeps_onNodeAwaitingInput {nodeId : String} (mine : footing.runs runId) :
    Keeps project footing (Dispatcher.onNodeAwaitingInput cfg host runId nodeId) := by
  refine keeps_getRun mine (keeps_pure _) fun run named tagged => ?_
  dsimp only
  split
  · exact keeps_pure _
  · refine keeps_ofExcept fun wf => ?_
    split
    · exact keeps_pure _
    · refine keeps_readSiblings.seq fun siblings => keeps_ofExcept fun spec => ?_
      refine Outline.caught (keeps_commit fun db _ after tagged holds done => ?_)
        fun _ => keeps_pure _
      exact confined_setInputSpec tagged (holds.runs runId mine) done

theorem keeps_deleteNonTerminal {site : Site} (mine : footing.runs runId) :
    Keeps project footing (commit site (NodeQueue.deleteNonTerminalJobsForRun runId)) := by
  refine keeps_commit fun db dropped after tagged holds done => ?_
  cases done
  refine confined_deleteJobs fun job member selected => ?_
  simp only [Bool.and_eq_true, beq_iff_eq] at selected
  exact tagged.own member (selected.1 ▸ holds.runs runId mine)

/-! ### Loops -/

theorem keeps_requeueBlocked {wf : Workflow} (mine : footing.runs runId) (named : run.id = runId)
    (tagged : run.project = project) :
    Keeps project footing (Dispatcher.requeueBlocked cfg host runId wf run fuel) := by
  refine Outline.seq (keeps_deleteNonTerminal mine) fun dropped => Outline.seq ?_ fun expanded => ?_
  · unfold Dispatcher.expandDropped
    split
    · exact keeps_pure _
    · exact keeps_processReady (named ▸ mine) tagged
  · split
    · exact (keeps_updateRun mine).seq fun _ => keeps_pure _
    · exact (keeps_updateRun mine).seq fun _ => keeps_pure _

theorem keeps_reconcileRun (mine : footing.runs runId) :
    Keeps project footing (Dispatcher.reconcileRun cfg host runId fuel) := by
  refine keeps_getRun mine (keeps_pure _) fun run named tagged => ?_
  dsimp only
  split
  · exact keeps_pure _
  · refine keeps_listJobs.seq fun existing => ?_
    split
    · exact keeps_pure _
    · refine keeps_ofExcept fun wf => keeps_ofExcept fun nodes => ?_
      split
      · exact (keeps_updateRun mine).seq fun _ => keeps_pure _
      · refine (keeps_processReady (named ▸ mine) tagged).seq fun expanded => ?_
        split
        · exact (keeps_updateRun mine).seq fun _ => keeps_pure _
        · exact keeps_requeueBlocked mine named tagged

theorem keeps_sweepStuckRuns {runIds : List String} (mine : ∀ runId ∈ runIds, footing.runs runId) :
    Keeps project footing (NodePool.sweepStuckRuns cfg host fuel runIds) := by
  induction runIds with
  | nil => exact keeps_pure _
  | cons runId rest ih =>
    have first : Keeps project footing
        (do let _ ← Dispatcher.reconcileRun cfg host runId fuel : Program Unit) :=
      (keeps_reconcileRun (mine runId List.mem_cons_self)).seq fun _ => keeps_pure _
    refine Outline.seq (first.caught fun _ => keeps_pure _) fun _ => ?_
    exact ih fun other member => mine other (List.mem_cons_of_mem _ member)

theorem keeps_restartRun (mine : footing.runs runId) :
    Keeps project footing (NodePool.restartRun cfg host fuel runId) :=
  (keeps_deleteNonTerminal mine).seq fun _ => (keeps_startRun mine).seq fun _ => keeps_pure _

theorem keeps_expandRuns {runIds : List String} (mine : ∀ runId ∈ runIds, footing.runs runId) :
    Keeps project footing (NodePool.expandRuns cfg host fuel runIds) := by
  induction runIds with
  | nil => exact keeps_pure _
  | cons runId rest ih =>
    have inside := mine runId List.mem_cons_self
    have turn : Keeps project footing
        (NodePool.expandRun cfg host fuel (runId :: rest) runId) := by
      refine (keeps_startRun inside).seq fun inserted => ?_
      split
      · exact keeps_updateRun inside
      · exact keeps_pure _
    refine Outline.seq (turn.caught fun _ => keeps_pure _) fun _ => ?_
    exact ih fun other member => mine other (List.mem_cons_of_mem _ member)

/-! ### The drain -/

/-- The events of a batch, by run and by id. -/
def BatchHeld (footing : Footing) (batch : List DispatchEvent) : Prop :=
  ∀ event ∈ batch, footing.runs event.runId ∧ footing.events event.id

theorem confined_updateEvent {eventId : Nat} {change : DispatchEvent → DispatchEvent} {db : Db}
    (owned : EventOwned project eventId db)
    (keeps : ∀ event, (change event).id = event.id ∧ (change event).runId = event.runId) :
    Confined project db (NodePool.updateEvent eventId change db) := by
  refine confined_events (.of_map _ (fun event => ?_) fun event member foreign => ?_)
  · split
    · exact keeps event
    · exact ⟨rfl, rfl⟩
  · split
    · rename_i same
      exact absurd (owned.2 event member (by simpa using same)) foreign
    · rfl

theorem confined_poisonRun {event : DispatchEvent} (error : PyErr) {db : Db}
    (owns : Owns project event.runId db) :
    Confined project db (NodePool.poisonRun event error db) := by
  refine confined_updateRuns (fun run member selected => ?_) fun _ => rfl
  simp only [Bool.and_eq_true, beq_iff_eq] at selected
  exact Owns.unique ⟨run, member, selected.1, rfl⟩ owns

theorem confined_settleEvent {handled : NodePool.Handled} {db : Db}
    (owns : Owns project handled.event.runId db)
    (owned : EventOwned project handled.event.id db) :
    Confined project db (NodePool.settleEvent db handled) := by
  cases handled with
  | succeeded event => exact confined_updateEvent owned fun _ => ⟨rfl, rfl⟩
  | raised event error =>
    have counted : Confined project db (NodePool.updateEvent event.id (fun row => { row with
        attempts := row.attempts + 1
        error := some (String.ofList (error.describe.toList.take 8000)) }) db) :=
      confined_updateEvent owned fun _ => ⟨rfl, rfl⟩
    unfold NodePool.settleEvent
    dsimp only
    split
    · have poisoned := counted.trans (confined_poisonRun error (counted.tenanted.owns owns))
      exact poisoned.trans (confined_updateEvent (owned.later poisoned.tenanted)
        fun _ => ⟨rfl, rfl⟩)
    · exact counted

theorem confined_settle {handled : List NodePool.Handled} {db : Db}
    (held : footing.Holds project db)
    (own : ∀ outcome ∈ handled, footing.runs outcome.event.runId ∧
      footing.events outcome.event.id) :
    Confined project db (handled.foldl NodePool.settleEvent db) := by
  induction handled generalizing db with
  | nil => exact .refl project db
  | cons outcome rest ih =>
    obtain ⟨run, event⟩ := own outcome List.mem_cons_self
    have first := confined_settleEvent (held.runs _ run) (held.events _ event)
    refine first.trans (ih (held.later first.tenanted) fun other member => ?_)
    exact own other (List.mem_cons_of_mem _ member)

theorem keeps_callback {event : DispatchEvent} (mine : footing.runs event.runId) :
    Keeps project footing (NodePool.callback cfg host fuel event) := by
  unfold NodePool.callback
  split
  · exact (keeps_onNodeCompleted mine).seq fun _ => keeps_pure _
  · exact keeps_onNodeFailed mine
  · exact keeps_onNodeAwaitingInput mine

/-- The outcome is that of the event itself. -/
theorem keeps_handleEvent {event : DispatchEvent} (mine : footing.runs event.runId) :
    (NodePool.handleEvent cfg host fuel event).Outline (tenantTerms project footing)
      (fun outcome _ => ∀ handled, outcome = .ok handled → handled.event = event)
      fun _ => True := by
  have returns : (do NodePool.callback cfg host fuel event; return .succeeded event :
      Program NodePool.Handled).Outline (tenantTerms project footing)
      (fun outcome _ => ∀ handled, outcome = .ok handled → handled.event = event)
      fun _ => True := by
    refine Outline.bind (keeps_callback mine) (fun _ => ?_) ?_
    · rintro _ _ handled ⟨⟩
      rfl
    · rintro _ _ _ handled ⟨⟩
  refine returns.handle (fun _ _ same => same) fun error => ?_
  rintro _ _ handled ⟨⟩
  rfl

theorem keeps_lockRun {handled : NodePool.Handled} :
    Keeps project footing (NodePool.lockRun handled) := by
  cases handled with
  | succeeded event => exact keeps_pure _
  | raised event error =>
    dsimp only [NodePool.lockRun]
    split
    · refine keeps_commit fun db _ after _ holds done => ?_
      cases done
      exact .refl project db
    · exact keeps_pure _

/-- The outcomes of a batch are those of its own events. -/
theorem keeps_handleEvents {α : Type} {batch : List DispatchEvent} {locked : List String}
    {rest : List NodePool.Handled → Program α} (held : BatchHeld footing batch)
    (continues : ∀ handled : List NodePool.Handled, (∀ outcome ∈ handled,
      footing.runs outcome.event.runId ∧ footing.events outcome.event.id) →
        Keeps project footing (rest handled)) :
    Keeps project footing (NodePool.handleEvents cfg host fuel locked batch >>= rest) := by
  induction batch generalizing rest locked with
  | nil => exact continues [] (by simp)
  | cons event others ih =>
    have mine := held event List.mem_cons_self
    have assoc : (NodePool.handleEvents cfg host fuel locked (event :: others) >>= rest) =
        (NodePool.handleEvent cfg host fuel event).awaiting (NodePool.writesRun locked) >>=
          fun handled => NodePool.lockRun handled >>= fun poisoned =>
            NodePool.handleEvents cfg host fuel (locked ++ poisoned) others >>= fun later =>
              rest (handled :: later) := by
      simp only [NodePool.handleEvents, bind_assoc, pure_bind]
    rw [assoc]
    refine ((keeps_handleEvent mine.1).awaiting _).bind (fun handled => ?_) fun _ _ _ => trivial
    have onward : handled.event = event → Keeps project footing
        (NodePool.lockRun handled >>= fun poisoned =>
          NodePool.handleEvents cfg host fuel (locked ++ poisoned) others >>= fun later =>
            rest (handled :: later)) := by
      intro same
      refine keeps_lockRun.seq fun poisoned => ?_
      refine ih (fun other member => held other (List.mem_cons_of_mem _ member)) fun later own => ?_
      refine continues _ fun outcome member => ?_
      rcases List.mem_cons.mp member with rfl | old
      · rw [same]
        exact mine
      · exact own outcome old
    exact (Outline.of_fact onward).weaken fun _ same => ⟨same handled rfl, trivial⟩

theorem keeps_drainDispatchEvents {batch : List DispatchEvent} (held : BatchHeld footing batch) :
    Keeps project footing (NodePool.drainDispatchEvents cfg host fuel batch) := by
  refine keeps_handleEvents held fun handled own => keeps_commit fun db _ after _ holds done => ?_
  cases done
  exact confined_settle holds own

/-! ### The input listener -/

theorem confined_markRow {jobId : Nat} {change : NodeJob → NodeJob}
    {keeps : ∀ job, (change job).key = job.key} {db after : Db} {row : Option NodeJob}
    (owned : RowOwned project jobId db) (same : ∀ job, (change job).project = job.project)
    (done : NodeQueue.mark jobId change keeps db = .ok (row, after)) :
    Confined project db after := by
  cases done
  refine confined_updateJobs (fun job member selected => ?_) same
  simp only [Bool.and_eq_true, beq_iff_eq] at selected
  exact owned.2 job member selected.1

theorem confined_markCompleted {jobId : Nat} {delta : Json} {db after : Db} {row : Option NodeJob}
    (owned : RowOwned project jobId db)
    (done : NodeQueue.markCompletedInTxn jobId delta db = .ok (row, after)) :
    Confined project db after := by
  refine confined_markRow owned ?_ done
  exact fun _ => rfl

theorem keeps_resumeAfterInput {nodeId : String} {value : Json} (mine : footing.runs runId) :
    Keeps project footing (Dispatcher.resumeAfterInput cfg host runId nodeId value fuel) := by
  refine Outline.commit_bind (fun _ _ _ _ => trivial) (fun _ _ => trivial) ?_ fun _ _ _ => trivial
  intro db existing after _ given done
  cases done
  refine ⟨.refl project db, ?_⟩
  cases found : (db.jobsOf runId).find? fun job => job.nodeId == nodeId with
  | none => exact ⟨fun _ => True, trivial, keeps_raise _⟩
  | some job =>
    -- The row is held by its id until the mark: nobody takes it out of the project.
    have member := List.mem_of_find?_eq_some found
    rw [Db.mem_jobsOf] at member
    have owned : RowOwned project job.id db := by
      have tag := given.1.own member.1 (member.2 ▸ given.2.runs runId mine)
      exact tag ▸ given.1.rowOwned member.1
    refine ⟨RowOwned project job.id, owned, ?_⟩
    dsimp only
    split
    · refine Outline.ofExcept_bind (fun delta _ => ?_) fun _ _ _ => trivial
      have marks : (commit ⟨.resumeMark, runId, []⟩ (NodeQueue.markCompletedInTxn job.id delta) :
          Program (Option NodeJob)).Outline (tenantTerms project footing) (fun _ _ => True)
          (RowOwned project job.id) :=
        Outline.commit (fun _ _ tenanted owned => owned.later tenanted) (fun _ _ => trivial)
          (fun _ _ _ owned _ done => ⟨confined_markCompleted owned done, trivial⟩)
          fun _ _ _ => trivial
      exact marks.seq fun _ => keeps_onNodeCompleted mine
    · exact fun _ _ => trivial

theorem keeps_settleSubmission {site : Site} {subId : Nat}
    {change : InputSubmission → InputSubmission} (mine : footing.submissions subId)
    (keeps : ∀ row, (change row).id = row.id ∧ (change row).runId = row.runId) :
    Keeps project footing (commit site (InputListener.updateSubmission subId change)) := by
  refine keeps_commit fun db _ after _ holds done => ?_
  cases done
  refine confined_submissions (fun row => ?_) fun row member foreign => ?_
  · split
    · exact keeps row
    · exact ⟨rfl, rfl⟩
  · split
    · rename_i same
      exact absurd ((holds.submissions subId mine).2 row member (by simpa using same)) foreign
    · rfl

theorem keeps_processRows {rows : List InputSubmission}
    (held : ∀ row ∈ rows, footing.runs row.runId ∧ footing.submissions row.id) :
    Keeps project footing (InputListener.processRows cfg host fuel rows) := by
  induction rows with
  | nil => exact keeps_pure _
  | cons row rest ih =>
    obtain ⟨run, submission⟩ := held row List.mem_cons_self
    have resumes : Keeps project footing (InputListener.resumeRow cfg host fuel row) :=
      Outline.caught ((keeps_resumeAfterInput run).seq fun _ => keeps_pure _) fun _ => keeps_pure _
    have first : Keeps project footing (InputListener.processRow cfg host fuel row) := by
      refine resumes.seq fun failure => ?_
      cases failure with
      | none => exact keeps_settleSubmission submission fun _ => ⟨rfl, rfl⟩
      | some error => exact keeps_settleSubmission submission fun _ => ⟨rfl, rfl⟩
    exact first.seq fun _ => ih fun other member => held other (List.mem_cons_of_mem _ member)

/-! ### Workers -/

section Worker

variable {job : NodeJob} {hasCache : Bool}

theorem confined_markFailed {jobId : Nat} {error : String} {db after : Db} {row : Option NodeJob}
    (owned : RowOwned project jobId db)
    (done : NodeQueue.markFailedInTxn jobId error db = .ok (row, after)) :
    Confined project db after := by
  refine confined_markRow owned ?_ done
  exact fun _ => rfl

theorem confined_enqueueEvent {nodeId : String} {kind : EventKind} {db after : Db}
    (owns : Owns project runId db)
    (done : NodeQueue.enqueueDispatchEventInTxn runId nodeId kind db = .ok ((), after)) :
    Confined project db after := by
  cases done
  exact confined_events (.of_append _ rfl owns)

/-- A terminal mark and its event. -/
theorem confined_markWithEvent {marking : Txn (Option NodeJob)} {nodeId : String}
    {kind : EventKind} {outcome result : Executor.Outcome} {db after : Db}
    (owns : Owns project runId db)
    (marks : ∀ row mid, marking db = .ok (row, mid) → Confined project db mid)
    (done : Executor.markWithEvent marking runId nodeId kind outcome db = .ok (result, after)) :
    Confined project db after := by
  rcases markWithEvent_cases done with ⟨-, unmarked⟩ | ⟨row, mid, marked, -, written⟩
  · exact marks none after unmarked
  · have first := marks (some row) mid marked
    exact first.trans (confined_enqueueEvent (first.tenanted.owns owns) written)

theorem confined_failJobInTxn {jobId : Nat} {error : String} {db after : Db}
    (tagged : WellTagged db) (owned : RowOwned project jobId db)
    (done : ClaimWorker.failJobInTxn jobId error db = .ok ((), after)) :
    Confined project db after := by
  rcases failJobInTxn_cases done with unmarked | ⟨new, mid, marked, written⟩
  · exact confined_markFailed owned unmarked
  · have first := confined_markFailed owned marked
    obtain ⟨-, ⟨none, -⟩ | ⟨row, present, mine, -, some⟩⟩ := mark_cases marked
    · cases none
    · cases some
      have owns : Owns project row.runId db := by
        have tag := owned.2 row present mine
        exact tag ▸ (tagged.rows row present).2
      exact first.trans (confined_enqueueEvent (first.tenanted.owns owns) written)

/-- What a worker's path on a row of the project does to the tables. -/
def WorkerConfined (project : String) (job : NodeJob) (db after : Db) : Prop :=
  WellTagged db → Owns project job.runId db → RowOwned project job.id db →
    Confined project db after

theorem workerConfined_frame (job : NodeJob) :
    WorkerFrame cfg job fun _ => WorkerConfined project job where
  reads _ db _ _ _ _ := .refl project db
  resolves _ db _ done _ _ owned := by
    cases done
    refine confined_updateJobs (fun row member selected => ?_) fun _ => rfl
    exact owned.2 row member (by simpa using selected)
  requeues _ _ db _ _ done _ _ owned := by
    cases done
    refine confined_updateJobs (fun row member selected => ?_) fun _ => rfl
    simp only [Bool.and_eq_true, beq_iff_eq] at selected
    exact owned.2 row member selected.1
  completes _ _ _ _ done _ owns owned :=
    confined_markWithEvent owns (fun _ _ => confined_markCompleted owned) done
  fails _ _ _ _ done _ owns owned :=
    confined_markWithEvent owns (fun _ _ => confined_markFailed owned) done
  trips _ _ _ done tagged _ owned := confined_failJobInTxn tagged owned done
  parks db _ done _ owns owned := by
    cases done
    have marked : Confined project db { db with
        jobs := db.jobs.update (fun row => row.id == job.id && !row.status.closed)
          (fun row => { row with status := .awaitingInput }) (by intro; rfl) } := by
      refine confined_updateJobs (fun row member selected => ?_) fun _ => rfl
      simp only [Bool.and_eq_true, beq_iff_eq] at selected
      exact owned.2 row member selected.1
    exact marked.trans (confined_enqueueEvent (marked.tenanted.owns owns) rfl)

/-- A worker's path needs nothing but its footing. -/
theorem keeps_of_worker {α : Type} {program : Program α}
    (always : program.Always (WorkerConfined project job)) (run : footing.runs job.runId)
    (row : footing.rows job.id) : Keeps project footing program := by
  induction program with
  | pure value => exact keeps_pure value
  | raise error => exact keeps_raise error
  | diverge => trivial
  | txn site act next ih =>
    refine ⟨fun _ => True, fun _ holds => holds, fun _ _ _ _ => trivial, fun _ _ => trivial, ?_,
      fun error => ih _ (always.2 _)⟩
    intro db value after _ given done
    refine ⟨?_, fun _ => True, trivial, ih _ (always.2 _)⟩
    exact always.1 db value after done given.1 (given.2.runs _ run) (given.2.rows _ row)

end Worker

end Paths

end QueueWorkflows
