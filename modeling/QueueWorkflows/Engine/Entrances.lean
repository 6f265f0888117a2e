import QueueWorkflows.Base.Outline
import QueueWorkflows.Engine.Frames

/-! The entry points of the expansion. Every path that expands a run reads the run's row
first and takes it along, and does nothing else of note. What an expansion achieves under
some terms, whatever they are, the paths around it achieve with it. -/

namespace QueueWorkflows

open Transaction (Prog Terms)
open Transaction.Prog (Always Outline commit ofExcept)

/-- The terms allow everything but insertions, and what a path knows of a run since it has
read the run's row stays known. -/
structure Tolerates (terms : Terms Db Site) (knows : RunRow → Db → Prop) : Prop where
  updates : Updates (fun _ => True) terms.good
  deletes : ∀ db selects, terms.good db { db with jobs := db.jobs.delete selects }
  settles : ∀ db handled, terms.good db (List.foldl NodePool.settleEvent db handled)
  harmless : ∀ site db, terms.safe site db
  holds : ∀ site run, terms.stable site (knows run)
  lasts : ∀ site db after run, terms.given site db after → knows run db → knows run after
  reads : ∀ db runId run, db.run? runId = some run → knows run db

section Tolerates

variable {terms : Terms Db Site} {knows : RunRow → Db → Prop} (tolerates : Tolerates terms knows)
  {runId : String} {run : RunRow} {assertion : Db → Prop}

include tolerates

/-- Where nothing has to be known, good transactions are enough. -/
theorem Tolerates.always {α : Type} {program : Program α} (always : program.Always terms.good) :
    program.Outline terms (fun _ _ => True) assertion :=
  Outline.of_always always tolerates.harmless fun _ _ => trivial

theorem Tolerates.keeps {α : Type} {program : Program α} (always : program.Always terms.good) :
    program.Outline terms (fun _ => knows run) (knows run) := by
  induction program with
  | pure value => exact fun _ known => known
  | raise error => exact fun _ known => known
  | diverge => trivial
  | txn site act next ih =>
    refine ⟨knows run, fun _ known => known, tolerates.holds site run,
      fun db _ => tolerates.harmless site db, ?_, fun _ => ih _ (always.2 _)⟩
    intro db value after known given done
    exact ⟨always.1 db value after done, knows run, tolerates.lasts site db after run given known,
      ih _ (always.2 _)⟩

theorem Tolerates.getRun {α : Type} {site : Site} {rest : Option RunRow → Program α}
    (none : (rest none).Outline terms (fun _ _ => True) fun _ => True)
    (some : ∀ run, (rest (some run)).Outline terms (fun _ _ => True) (knows run)) :
    (commit site (RunStore.getRun runId) >>= rest).Outline terms (fun _ _ => True) assertion := by
  have reads : (commit site (RunStore.getRun runId) >>= rest).Outline terms (fun _ _ => True)
      fun _ => True := by
    refine Outline.commit_bind (terms.idle site) (fun db _ => tolerates.harmless site db) ?_
      fun _ _ _ => trivial
    intro db found after _ _ done
    cases done
    refine ⟨tolerates.updates.refl db, ?_⟩
    cases row : db.run? runId with
    | none => exact ⟨fun _ => True, trivial, none⟩
    | some run => exact ⟨knows run, tolerates.reads db runId run row, some run⟩
  exact reads.weaken fun _ _ => trivial

end Tolerates

/-- From what is known of the run's row, an expansion keeps to its outline. -/
structure Entered (cfg : Config) (terms : Terms Db Site) (knows : RunRow → Db → Prop) : Prop
    extends Tolerates terms knows where
  expands : ∀ host stale wf run fuel, cfg.workflowLoader run.workflowName = .ok wf →
    (Dispatcher.processReady cfg host stale wf run fuel).Outline terms (fun _ => knows run)
      (knows run)

namespace Entered

variable {cfg : Config} {terms : Terms Db Site} {knows : RunRow → Db → Prop}
  (entered : Entered cfg terms knows) {host : Host} {fuel : Nat} {stale : List String}
  {runId nodeId : String} {run : RunRow}

include entered

/-- The expansion, where what it knows is not needed any more. -/
theorem processReady {wf : Workflow} (loaded : cfg.workflowLoader run.workflowName = .ok wf) :
    (Dispatcher.processReady cfg host stale wf run fuel).Outline terms (fun _ _ => True)
      (knows run) :=
  (entered.expands host stale wf run fuel loaded).imp fun _ _ _ => trivial

theorem startRun : (Dispatcher.startRun cfg host stale runId fuel).Outline terms
    (fun _ _ => True) fun _ => True := by
  refine entered.getRun (fun _ _ => trivial) fun run => ?_
  refine Outline.ofExcept_bind (fun wf loaded => ?_) fun _ _ _ => trivial
  cases Dispatcher.assertGpuNodesDeclareModel cfg wf run with
  | ok _ => exact entered.processReady loaded
  | error error =>
    dsimp only
    split
    · refine entered.always (Always.bind (Always.commit fun db _ after done => ?_) fun _ => trivial)
      exact entered.updates.updateRun _ trivial db _ after done
    · exact fun _ _ => trivial

theorem restartRun : (NodePool.restartRun cfg host fuel runId).Outline terms
    (fun _ _ => True) fun _ => True := by
  have deletes : (commit ⟨.restartDelete, runId, []⟩
      (NodeQueue.deleteNonTerminalJobsForRun runId) : Program (List String)).Always terms.good := by
    refine Always.commit fun db dropped after done => ?_
    cases done
    exact entered.deletes db _
  exact (entered.always deletes).seq fun _ => entered.startRun.seq fun _ _ _ => trivial

theorem expandRuns {runIds : List String} : (NodePool.expandRuns cfg host fuel runIds).Outline
    terms (fun _ _ => True) fun _ => True := by
  induction runIds with
  | nil => exact fun _ _ => trivial
  | cons runId rest ih =>
    have turn : (NodePool.expandRun cfg host fuel (runId :: rest) runId).Outline terms
        (fun _ _ => True) fun _ => True := by
      refine entered.startRun.seq fun inserted => ?_
      split
      · refine entered.always (Always.commit fun db _ after done => ?_)
        exact entered.updates.updateRun _ trivial db _ after done
      · exact fun _ _ => trivial
    refine Outline.seq (turn.caught fun error => ?_) fun _ => ih
    exact fun _ _ => trivial

theorem advanceRun : (Dispatcher.advanceRun cfg host runId run fuel).Outline terms
    (fun _ _ => True) (knows run) := by
  refine Outline.ofExcept_bind (fun wf loaded => ?_) fun _ _ _ => trivial
  refine (entered.processReady loaded).seq fun _ => entered.always ?_
  refine entered.updates.listJobs.bind fun existing => (Always.ofExcept _).bind fun nodes => ?_
  refine Always.bind ?_ fun _ => trivial
  unfold Dispatcher.completeIfSatisfied
  split
  · exact Always.commit fun db _ after done =>
      entered.updates.updateRun _ trivial db _ after done
  · trivial

theorem onNodeCompleted : (Dispatcher.onNodeCompleted cfg host runId nodeId fuel).Outline terms
    (fun _ _ => True) fun _ => True := by
  refine entered.getRun (fun _ _ => trivial) fun run => ?_
  dsimp only
  split
  · exact fun _ _ => trivial
  · refine Outline.bind (entered.keeps entered.updates.listJobs) (fun existing => ?_)
      fun _ _ _ => trivial
    split
    · exact entered.always ((entered.updates.parks.finishPatchJob trivial).bind fun _ => trivial)
    · exact entered.advanceRun

theorem handleEvents {batch : List DispatchEvent} {locked : List String} :
    (NodePool.handleEvents cfg host fuel locked batch).Outline terms (fun _ _ => True)
      fun _ => True := by
  induction batch generalizing locked with
  | nil => exact fun _ _ => trivial
  | cons event rest ih =>
    have calls : (NodePool.callback cfg host fuel event).Outline terms (fun _ _ => True)
        fun _ => True := by
      unfold NodePool.callback
      split
      · exact entered.onNodeCompleted.seq fun _ _ _ => trivial
      · exact entered.always (entered.updates.onNodeFailed trivial)
      · exact entered.always (entered.updates.parks.onNodeAwaitingInput trivial)
    have first : (NodePool.handleEvent cfg host fuel event).Outline terms (fun _ _ => True)
        fun _ => True := by
      refine Outline.caught (calls.seq fun _ => ?_) fun _ => ?_
      all_goals exact fun _ _ => trivial
    refine (first.awaiting _).seq fun _ => (entered.always entered.updates.lockRun).seq fun _ => ?_
    exact ih.seq fun _ _ _ => trivial

theorem drainDispatchEvents {batch : List DispatchEvent} :
    (NodePool.drainDispatchEvents cfg host fuel batch).Outline terms (fun _ _ => True)
      fun _ => True := by
  refine entered.handleEvents.seq fun handled => entered.always ?_
  refine Always.commit fun db _ after done => ?_
  cases done
  exact entered.settles db handled

theorem resumeAfterInput {value : Json} :
    (Dispatcher.resumeAfterInput cfg host runId nodeId value fuel).Outline terms
      (fun _ _ => True) fun _ => True := by
  refine (entered.always entered.updates.listJobs).seq fun existing => ?_
  cases existing.find? fun job => job.nodeId == nodeId with
  | none => exact fun _ _ => trivial
  | some job =>
    dsimp only
    split
    · refine Outline.ofExcept_bind (fun delta _ => ?_) fun _ _ _ => trivial
      refine (entered.always (Always.commit fun db _ after done => ?_)).seq
        fun _ => entered.onNodeCompleted
      cases done
      exact entered.updates.update db _ _ _ fun _ => ⟨.inr rfl, rfl⟩
    · exact fun _ _ => trivial

theorem processRows {rows : List InputSubmission} :
    (InputListener.processRows cfg host fuel rows).Outline terms (fun _ _ => True)
      fun _ => True := by
  induction rows with
  | nil => exact fun _ _ => trivial
  | cons row rest ih =>
    have resumes : (InputListener.resumeRow cfg host fuel row).Outline terms (fun _ _ => True)
        fun _ => True := by
      refine Outline.caught (entered.resumeAfterInput.seq fun _ => ?_) fun _ => ?_
      all_goals exact fun _ _ => trivial
    have first : (InputListener.processRow cfg host fuel row).Outline terms (fun _ _ => True)
        fun _ => True := by
      refine resumes.seq fun failure => ?_
      cases failure with
      | none => exact entered.always entered.updates.settleSubmission
      | some error => exact entered.always entered.updates.settleSubmission
    exact first.seq fun _ => ih

theorem requeueBlocked {wf : Workflow} (loaded : cfg.workflowLoader run.workflowName = .ok wf) :
    (Dispatcher.requeueBlocked cfg host runId wf run fuel).Outline terms (fun _ _ => True)
      (knows run) := by
  have deletes : (commit ⟨.reconcileDelete, runId, [runId]⟩
      (NodeQueue.deleteNonTerminalJobsForRun runId) : Program (List String)).Always terms.good := by
    refine Always.commit fun db dropped after done => ?_
    cases done
    exact entered.deletes db _
  refine Outline.bind (entered.keeps deletes) (fun dropped => ?_) fun _ _ _ => trivial
  have expands : (Dispatcher.expandDropped cfg host runId wf run fuel dropped).Outline terms
      (fun _ _ => True) (knows run) := by
    unfold Dispatcher.expandDropped
    split
    · exact fun _ _ => trivial
    · exact entered.processReady loaded
  refine expands.seq fun expanded => ?_
  split
  · exact entered.always ((entered.updates.setRunning trivial).bind fun _ => trivial)
  · refine entered.always (Always.bind (Always.commit fun db _ after done => ?_) fun _ => trivial)
    exact entered.updates.updateRun _ trivial db _ after done

theorem reconcileRun : (Dispatcher.reconcileRun cfg host runId fuel).Outline terms
    (fun _ _ => True) fun _ => True := by
  refine entered.getRun (fun _ _ => trivial) fun run => ?_
  dsimp only
  split
  · exact fun _ _ => trivial
  refine Outline.bind (entered.keeps entered.updates.listJobs) (fun existing => ?_)
    fun _ _ _ => trivial
  split
  · exact fun _ _ => trivial
  refine Outline.ofExcept_bind (fun wf loaded => ?_) fun _ _ _ => trivial
  refine Outline.ofExcept_bind (fun nodes _ => ?_) fun _ _ _ => trivial
  split
  · refine entered.always (Always.bind (Always.commit fun db _ after done => ?_) fun _ => trivial)
    exact entered.updates.updateRun _ trivial db _ after done
  refine Outline.bind (entered.expands host [runId] wf run fuel loaded) (fun expanded => ?_)
    fun _ _ _ => trivial
  split
  · exact entered.always ((entered.updates.setRunning trivial).bind fun _ => trivial)
  · exact entered.requeueBlocked loaded

theorem sweepStuckRuns {runIds : List String} :
    (NodePool.sweepStuckRuns cfg host fuel runIds).Outline terms (fun _ _ => True)
      fun _ => True := by
  induction runIds with
  | nil => exact fun _ _ => trivial
  | cons runId rest ih =>
    have first : (do let _ ← Dispatcher.reconcileRun cfg host runId fuel : Program Unit).Outline
        terms (fun _ _ => True) fun _ => True := entered.reconcileRun.seq fun _ _ _ => trivial
    refine Outline.seq (first.caught fun error => ?_) fun _ => ih
    exact fun _ _ => trivial

end Entered

/-- A path of the dispatcher or the orchestrator, and none of a worker. -/
def Role.expands : Role → Prop
  | .execution _ | .trip _ => False
  | _ => True

/-- Whatever path starts, it starts on its outline. -/
theorem Entered.starts {cfg : Config} {terms : Terms Db Site} {knows : RunRow → Db → Prop}
    (entered : Entered cfg terms knows) {sys : Sys} {label : Label} {db : Db} {role : Role}
    {prog : Program Unit} (starts : Starts cfg sys label db role prog) (covered : role.expands) :
    Transaction.Pool.Outlined terms ⟨role, prog⟩ db := by
  refine ⟨fun _ => True, trivial, ?_⟩
  cases starts with
  | restart => exact entered.restartRun
  | expand => exact entered.expandRuns
  | drain => exact entered.drainDispatchEvents
  | sweep => exact entered.sweepStuckRuns
  | poll => exact entered.processRows
  | _ => exact covered.elim

end QueueWorkflows
