import QueueWorkflows.Base.Absorption
import QueueWorkflows.Engine.System

/-! Frame conditions of the dispatcher's and the orchestrator's paths: which
tables, and which runs, their transactions touch, and at which sites they stand. -/

namespace QueueWorkflows

open Transaction (Prog)
open Transaction.Prog (Always Marked commit ofExcept)

/-- A row nobody holds, or still held by whoever held it. -/
def KeepsOwner (old new : NodeJob) : Prop :=
  new.claimedBy = none ∨ new.claimedBy = old.claimedBy

/-- What the orchestrator leaves of a row: its owner, and its count of retries. -/
structure Tends (old new : NodeJob) : Prop where
  owner : KeepsOwner old new
  retries : new.watchdogRetries = old.watchdogRetries

/-- `G` allows reading. -/
structure Reads (G : Db → Db → Prop) : Prop where
  refl : ∀ db, G db db

namespace Reads

variable {G : Db → Db → Prop} (reads : Reads G)

include reads

theorem listJobs {site : Site} {runId : String} :
    (commit site (NodeQueue.listJobsForRun runId)).Always G := by
  refine Always.commit fun db rows after done => ?_
  cases done
  exact reads.refl db

theorem getRun {site : Site} {runId : String} :
    (commit site (RunStore.getRun runId)).Always G := by
  refine Always.commit fun db row after done => ?_
  cases done
  exact reads.refl db

theorem readSiblings {site : Site} {run : RunRow} :
    (Dispatcher.readSiblings site run).Always G :=
  reads.listJobs.handle fun _ => trivial

/-- The pass reads whether it locks a run. -/
theorem lockRun {handled : NodePool.Handled} : (NodePool.lockRun handled).Always G := by
  cases handled with
  | succeeded event => trivial
  | raised event error =>
    dsimp only [NodePool.lockRun]
    split
    · refine Always.commit fun db _ after done => ?_
      cases done
      exact reads.refl db
    · trivial

end Reads

/-- A row that nobody has held yet. -/
def Fresh (job : NodeJob) : Prop :=
  job.claimedBy = none ∧ job.watchdogRetries = 0

/-- `G` allows the insertion of fresh rows. -/
structure Inserts (G : Db → Db → Prop) : Prop extends Reads G where
  insert : ∀ db job jobs, Fresh job → db.jobs.insert? job = some jobs →
    G db { db with jobs := jobs, nextJob := db.nextJob + 1 }

namespace Inserts

variable {G : Db → Db → Prop} (inserts : Inserts G)
variable {cfg : Config} {host : Host} {fuel : Nat} {stale : List String}

include inserts

theorem insertJob {job : Nat → Time → NodeJob} {db after : Db} {id : Nat}
    (fresh : ∀ id now, Fresh (job id now))
    (done : NodeQueue.insertJob job db = .ok (id, after)) : G db after := by
  simp only [NodeQueue.insertJob] at done
  split at done
  · cases done
  · split at done
    · cases done
    · rename_i jobs inserted
      cases done
      exact inserts.insert db _ jobs (fresh _ _) inserted

theorem enqueueNodeJob {new : NodeQueue.NewJob} {db after : Db} {id : Nat}
    (done : NodeQueue.enqueueNodeJob new db = .ok (id, after)) : G db after := by
  unfold NodeQueue.enqueueNodeJob at done
  split at done
  · cases done
  · exact inserts.insertJob (fun _ _ => ⟨rfl, rfl⟩) done

theorem dispatchNode {run : RunRow} {existing : List NodeJob} {node : DagNode} :
    (Dispatcher.dispatchNode cfg host stale run existing node).Always G := by
  refine (Always.ofExcept _).bind fun skip => ?_
  split
  · exact Always.bind (Always.commit fun _ _ _ done => inserts.insertJob (fun _ _ => ⟨rfl, rfl⟩) done)
      fun _ => trivial
  · unfold Dispatcher.enqueue
    split
    · exact Always.bind (Always.commit fun _ _ _ done => inserts.enqueueNodeJob done)
        fun _ => trivial
    · refine inserts.readSiblings.bind fun siblings => ?_
      refine (Always.ofExcept _).bind fun context => (Always.ofExcept _).bind fun resolved => ?_
      exact Always.bind (Always.commit fun _ _ _ done => inserts.enqueueNodeJob done)
        fun _ => trivial

theorem dispatchReady {run : RunRow} {existing : List NodeJob} {ready : List DagNode} :
    (Dispatcher.dispatchReady cfg host stale run existing ready).Always G := by
  induction ready with
  | nil => trivial
  | cons node rest ih => exact inserts.dispatchNode.bind fun _ => ih.bind fun _ => trivial

theorem processReady {wf : Workflow} {run : RunRow} :
    (Dispatcher.processReady cfg host stale wf run fuel).Always G := by
  induction fuel with
  | zero => trivial
  | succ fuel ih =>
    refine inserts.listJobs.bind fun existing => (Always.ofExcept _).bind fun nodes => ?_
    dsimp only
    split
    · trivial
    · exact inserts.dispatchReady.bind fun _ => ih.bind fun _ => trivial

theorem startRun {runId : String} (updates : ∀ db fields after,
      RunStore.updateRun runId fields db = .ok ((), after) → G db after) :
    (Dispatcher.startRun cfg host stale runId fuel).Always G := by
  refine inserts.getRun.bind fun found => ?_
  cases found with
  | none => trivial
  | some run =>
    refine (Always.ofExcept _).bind fun wf => ?_
    cases Dispatcher.assertGpuNodesDeclareModel cfg wf run with
    | ok _ => exact inserts.processReady
    | error error =>
      dsimp only
      split
      · refine (Always.commit fun db _ after done => ?_).bind fun _ => trivial
        exact updates db _ after done
      · trivial

end Inserts

/-- `G` allows the statement that writes the input spec of the nodes in question. -/
structure Parks (nodes : String → String → Prop) (G : Db → Db → Prop) : Prop
    extends Reads G where
  setInputSpec : ∀ runId nodeId, nodes runId nodeId → ∀ db spec after,
    NodeQueue.setInputSpec runId nodeId spec db = .ok ((), after) → G db after

namespace Parks

variable {nodes : String → String → Prop} {G : Db → Db → Prop} (frame : Parks nodes G)
variable {cfg : Config} {host : Host}

include frame

theorem bumpInputSpec {runId target : String} {fields : Time → List (String × Option Json)}
    (inside : nodes runId target) : (Dispatcher.bumpInputSpec runId target fields).Always G := by
  unfold Dispatcher.bumpInputSpec
  split
  · trivial
  · refine frame.listJobs.bind fun existing => ?_
    split
    · exact Always.commit fun db _ after done => frame.setInputSpec _ _ inside db _ after done
    · trivial

theorem finishPatchJob {run : RunRow} {job : NodeJob} {fields : Dict}
    (inside : nodes run.id (Dispatcher.metaText cfg fields "target_input")) :
    (Dispatcher.finishPatchJob cfg host run job fields).Always G := by
  refine frame.listJobs.bind fun existing => (Always.ofExcept _).bind fun _ => ?_
  exact frame.bumpInputSpec inside

theorem flagPatchError {run : RunRow} {job : NodeJob} {fields : Dict}
    (inside : nodes run.id (Dispatcher.metaText cfg fields "target_input")) :
    (Dispatcher.flagPatchError cfg run job fields).Always G := by
  unfold Dispatcher.flagPatchError
  exact frame.bumpInputSpec inside

theorem onNodeAwaitingInput {runId nodeId : String} (inside : nodes runId nodeId) :
    (Dispatcher.onNodeAwaitingInput cfg host runId nodeId).Always G := by
  refine frame.getRun.bind fun found => ?_
  cases found with
  | none => trivial
  | some run =>
    dsimp only
    split
    · trivial
    · refine (Always.ofExcept _).bind fun wf => ?_
      split
      · trivial
      · refine frame.readSiblings.bind fun siblings => (Always.ofExcept _).bind fun spec => ?_
        exact Always.handle (Always.commit fun db _ after done =>
          frame.setInputSpec _ _ inside db _ after done) fun _ => trivial

theorem onNodeFailed {runId nodeId : String} (anywhere : ∀ runId nodeId, nodes runId nodeId)
    (cancels : ∀ db after, NodeQueue.cancelSiblingsAfterFailure runId db = .ok ((), after) →
      G db after)
    (updates : ∀ db fields after, RunStore.updateRun runId fields db = .ok ((), after) →
      G db after) : (Dispatcher.onNodeFailed cfg runId nodeId).Always G := by
  refine frame.getRun.bind fun found => ?_
  split
  · trivial
  · refine frame.listJobs.bind fun existing => ?_
    split
    · exact frame.flagPatchError (anywhere _ _)
    · refine Always.bind (Always.commit fun db _ after done => cancels db after done) fun _ => ?_
      exact Always.commit fun db _ after done => updates db _ after done

end Parks

/-- `G` allows what the callback of a completed node does. -/
structure Advances (scope : String → Prop) (G : Db → Db → Prop) : Prop
    extends Inserts G, Parks (fun _ _ => True) G where
  updateRun : ∀ runId, scope runId → ∀ db fields after,
    RunStore.updateRun runId fields db = .ok ((), after) → G db after

namespace Advances

variable {scope : String → Prop} {G : Db → Db → Prop} (frame : Advances scope G)
variable {cfg : Config} {host : Host} {fuel : Nat}

include frame

theorem advanceRun {runId : String} {run : RunRow} (inside : scope runId) :
    (Dispatcher.advanceRun cfg host runId run fuel).Always G := by
  refine (Always.ofExcept _).bind fun wf => frame.processReady.bind fun _ => ?_
  refine frame.listJobs.bind fun existing => (Always.ofExcept _).bind fun nodes => ?_
  refine Always.bind ?_ fun _ => trivial
  unfold Dispatcher.completeIfSatisfied
  split
  · exact Always.commit fun db _ after done => frame.updateRun runId inside db _ after done
  · trivial

theorem onNodeCompleted {runId nodeId : String} (inside : scope runId) :
    (Dispatcher.onNodeCompleted cfg host runId nodeId fuel).Always G := by
  refine frame.getRun.bind fun found => ?_
  cases found with
  | none => trivial
  | some run =>
    dsimp only
    split
    · trivial
    · refine frame.listJobs.bind fun existing => ?_
      split
      · exact Always.bind (frame.finishPatchJob trivial) fun _ => trivial
      · exact frame.advanceRun inside

end Advances

/-- `G` allows any update of the job and submission tables that claims no row, and
`update_run` on the runs in scope. -/
structure Updates (scope : String → Prop) (G : Db → Db → Prop) : Prop extends Reads G where
  update : ∀ db selects change keeps, (∀ job, Tends job (change job)) →
    G db { db with jobs := db.jobs.update selects change keeps }
  submissions : ∀ db submissions, G db { db with submissions := submissions }
  updateRun : ∀ runId, scope runId → ∀ db fields after,
    RunStore.updateRun runId fields db = .ok ((), after) → G db after

/-- `G` allows insertions and updates. -/
structure Retains (scope : String → Prop) (G : Db → Db → Prop) : Prop
    extends Inserts G, Updates scope G

/-- `G` allows deletions too. -/
structure Frame (scope : String → Prop) (G : Db → Db → Prop) : Prop extends Retains scope G where
  delete : ∀ db selects, G db { db with jobs := db.jobs.delete selects }

namespace Updates

variable {scope : String → Prop} {G : Db → Db → Prop} (frame : Updates scope G)
variable {cfg : Config} {host : Host}

include frame

theorem parks : Parks (fun _ _ => True) G where
  refl := frame.refl
  setInputSpec _ _ _ db _ _ done := by
    cases done
    exact frame.update db _ _ _ fun _ => ⟨.inr rfl, rfl⟩

theorem onNodeFailed {runId nodeId : String} (inside : scope runId) :
    (Dispatcher.onNodeFailed cfg runId nodeId).Always G := by
  refine frame.parks.onNodeFailed (fun _ _ => trivial) (fun db after done => ?_)
    (frame.updateRun runId inside)
  cases done
  exact frame.update db _ _ _ fun _ => ⟨.inr rfl, rfl⟩

theorem setRunning {runId : String} (inside : scope runId) :
    (Dispatcher.setRunning runId).Always G :=
  Always.commit fun db _ after done => frame.updateRun runId inside db _ after done

theorem settleSubmission {site : Site} {subId : Nat} {change : InputSubmission → InputSubmission} :
    (commit site (InputListener.updateSubmission subId change)).Always G := by
  refine Always.commit fun db _ after done => ?_
  cases done
  exact frame.submissions db _

end Updates

namespace Retains

variable {scope : String → Prop} {G : Db → Db → Prop} (frame : Retains scope G)
variable {cfg : Config} {host : Host} {fuel : Nat} {stale : List String}

include frame

theorem startRun {runId : String} (inside : scope runId) :
    (Dispatcher.startRun cfg host stale runId fuel).Always G :=
  frame.toInserts.startRun (frame.updateRun runId inside)

theorem advances : Advances scope G where
  toInserts := frame.toInserts
  setInputSpec := frame.parks.setInputSpec
  updateRun := frame.updateRun

theorem onNodeCompleted {runId nodeId : String} (inside : scope runId) :
    (Dispatcher.onNodeCompleted cfg host runId nodeId fuel).Always G :=
  frame.advances.onNodeCompleted inside

theorem onNodeAwaitingInput {runId nodeId : String} :
    (Dispatcher.onNodeAwaitingInput cfg host runId nodeId).Always G :=
  frame.parks.onNodeAwaitingInput trivial

theorem resumeAfterInput {runId nodeId : String} {value : Json} (inside : scope runId) :
    (Dispatcher.resumeAfterInput cfg host runId nodeId value fuel).Always G := by
  refine frame.listJobs.bind fun existing => ?_
  split
  · trivial
  · split
    · refine (Always.ofExcept _).bind fun delta => Always.bind (Always.commit ?_) fun _ =>
        frame.onNodeCompleted inside
      intro db row after done
      cases done
      exact frame.update db _ _ _ fun _ => ⟨.inr rfl, rfl⟩
    · trivial

/-! ### Loops -/

theorem expandRun {runId : String} (inside : scope runId) :
    (NodePool.expandRun cfg host fuel stale runId).Always G := by
  refine (frame.startRun inside).bind fun inserted => ?_
  split
  · exact Always.commit fun db _ after done => frame.updateRun runId inside db _ after done
  · trivial

theorem expandRuns {runIds : List String} (inside : ∀ runId ∈ runIds, scope runId) :
    (NodePool.expandRuns cfg host fuel runIds).Always G := by
  induction runIds with
  | nil => trivial
  | cons runId rest ih =>
    refine Always.bind ((frame.expandRun (inside runId List.mem_cons_self)).handle
      fun _ => trivial) fun _ => ?_
    exact ih fun other member => inside other (List.mem_cons_of_mem _ member)

theorem callback {event : DispatchEvent} (inside : scope event.runId) :
    (NodePool.callback cfg host fuel event).Always G := by
  unfold NodePool.callback
  split
  · exact (frame.onNodeCompleted inside).bind fun _ => trivial
  · exact frame.onNodeFailed inside
  · exact frame.onNodeAwaitingInput

theorem handleEvents {batch : List DispatchEvent} {locked : List String}
    (inside : ∀ event ∈ batch, scope event.runId) :
    (NodePool.handleEvents cfg host fuel locked batch).Always G := by
  induction batch generalizing locked with
  | nil => trivial
  | cons event rest ih =>
    have first : (NodePool.handleEvent cfg host fuel event).Always G :=
      Always.handle (Always.bind (frame.callback (inside event List.mem_cons_self))
        fun _ => trivial) fun _ => trivial
    refine (first.awaiting _).bind fun _ => frame.lockRun.bind fun _ => Always.bind ?_ fun _ => trivial
    exact ih fun other member => inside other (List.mem_cons_of_mem _ member)

theorem drainDispatchEvents {batch : List DispatchEvent}
    (inside : ∀ event ∈ batch, scope event.runId)
    (settles : ∀ db handled, G db (List.foldl NodePool.settleEvent db handled)) :
    (NodePool.drainDispatchEvents cfg host fuel batch).Always G := by
  refine (frame.handleEvents inside).bind fun handled => Always.commit fun db _ after done => ?_
  cases done
  exact settles db handled

theorem resumeRow {row : InputSubmission} (inside : scope row.runId) :
    (InputListener.resumeRow cfg host fuel row).Always G :=
  Always.handle (Always.bind (frame.resumeAfterInput inside) fun _ => trivial) fun _ => trivial

theorem processRow {row : InputSubmission} (inside : scope row.runId) :
    (InputListener.processRow cfg host fuel row).Always G := by
  refine (frame.resumeRow inside).bind fun failure => ?_
  cases failure with
  | none => exact frame.settleSubmission
  | some error => exact frame.settleSubmission

theorem processRows {rows : List InputSubmission} (inside : ∀ row ∈ rows, scope row.runId) :
    (InputListener.processRows cfg host fuel rows).Always G := by
  induction rows with
  | nil => trivial
  | cons row rest ih =>
    refine (frame.processRow (inside row List.mem_cons_self)).bind fun _ => ?_
    exact ih fun other member => inside other (List.mem_cons_of_mem _ member)

end Retains

namespace Frame

variable {scope : String → Prop} {G : Db → Db → Prop} (frame : Frame scope G)
variable {cfg : Config} {host : Host} {fuel : Nat} {stale : List String}

include frame

theorem deleteNonTerminal {site : Site} {runId : String} :
    (commit site (NodeQueue.deleteNonTerminalJobsForRun runId)).Always G := by
  refine Always.commit fun db dropped after done => ?_
  cases done
  exact frame.delete db _

theorem requeueBlocked {runId : String} {wf : Workflow} {run : RunRow} (inside : scope runId) :
    (Dispatcher.requeueBlocked cfg host runId wf run fuel).Always G := by
  refine frame.deleteNonTerminal.bind fun dropped => Always.bind ?_ fun expanded => ?_
  · unfold Dispatcher.expandDropped
    split
    · trivial
    · exact frame.processReady
  · split
    · exact (frame.setRunning inside).bind fun _ => trivial
    · refine Always.bind (Always.commit fun db _ after done => ?_) fun _ => trivial
      exact frame.updateRun runId inside db _ after done

theorem reconcileRun {runId : String} (inside : scope runId) :
    (Dispatcher.reconcileRun cfg host runId fuel).Always G := by
  refine frame.getRun.bind fun found => ?_
  cases found with
  | none => trivial
  | some run =>
    dsimp only
    split
    · trivial
    · refine frame.listJobs.bind fun existing => ?_
      split
      · trivial
      · refine (Always.ofExcept _).bind fun wf => (Always.ofExcept _).bind fun nodes => ?_
        split
        · refine Always.bind (Always.commit fun db _ after done => ?_) fun _ => trivial
          exact frame.updateRun runId inside db _ after done
        · refine frame.processReady.bind fun expanded => ?_
          split
          · exact (frame.setRunning inside).bind fun _ => trivial
          · exact frame.requeueBlocked inside

theorem sweepStuckRuns {runIds : List String} (inside : ∀ runId ∈ runIds, scope runId) :
    (NodePool.sweepStuckRuns cfg host fuel runIds).Always G := by
  induction runIds with
  | nil => trivial
  | cons runId rest ih =>
    have first : (do let _ ← Dispatcher.reconcileRun cfg host runId fuel : Program Unit).Always G :=
      (frame.reconcileRun (inside runId List.mem_cons_self)).bind fun _ => trivial
    refine Always.bind (first.handle fun _ => trivial) fun _ => ?_
    exact ih fun other member => inside other (List.mem_cons_of_mem _ member)

theorem restartRun {runId : String} (inside : scope runId) :
    (NodePool.restartRun cfg host fuel runId).Always G :=
  frame.deleteNonTerminal.bind fun _ => (frame.startRun inside).bind fun _ => trivial

end Frame

/-! ### Sites -/

/-- Where `_process_ready` stands. -/
def Place.expanding : Place → Bool
  | .readyJobs | .refJobs | .insertQueued | .insertSkipped => true
  | _ => false

section Sites

variable {exempt : Site → Prop} {cfg : Config} {host : Host} {fuel : Nat} {stale : List String}
  {run : RunRow}

theorem marked_dispatchNode {existing : List NodeJob} {node : DagNode}
    (sites : ∀ place : Place, place.expanding = true → exempt ⟨place, run.id, stale⟩) :
    (Dispatcher.dispatchNode cfg host stale run existing node).Marked exempt := by
  refine (Marked.ofExcept _).bind fun skip => ?_
  split
  · exact Marked.bind (Marked.commit (sites _ rfl)) fun _ => trivial
  · unfold Dispatcher.enqueue
    split
    · exact Marked.bind (Marked.commit (sites _ rfl)) fun _ => trivial
    · refine Marked.bind (Marked.handle (Marked.commit (sites _ rfl)) fun _ => trivial)
        fun siblings => ?_
      refine (Marked.ofExcept _).bind fun context => (Marked.ofExcept _).bind fun resolved => ?_
      exact Marked.bind (Marked.commit (sites _ rfl)) fun _ => trivial

theorem marked_dispatchReady {existing : List NodeJob} {ready : List DagNode}
    (sites : ∀ place : Place, place.expanding = true → exempt ⟨place, run.id, stale⟩) :
    (Dispatcher.dispatchReady cfg host stale run existing ready).Marked exempt := by
  induction ready with
  | nil => trivial
  | cons node rest ih => exact (marked_dispatchNode sites).bind fun _ => ih.bind fun _ => trivial

theorem marked_processReady {wf : Workflow}
    (sites : ∀ place : Place, place.expanding = true → exempt ⟨place, run.id, stale⟩) :
    (Dispatcher.processReady cfg host stale wf run fuel).Marked exempt := by
  induction fuel with
  | zero => trivial
  | succ fuel ih =>
    refine Marked.bind (Marked.commit (sites _ rfl)) fun existing => ?_
    refine (Marked.ofExcept _).bind fun nodes => ?_
    dsimp only
    split
    · trivial
    · exact (marked_dispatchReady sites).bind fun _ => ih.bind fun _ => trivial

theorem marked_advanceRun {runId : String}
    (sites : ∀ place : Place, place.expanding = true → exempt ⟨place, run.id, [runId]⟩)
    (terminal : exempt ⟨.terminalJobs, runId, [runId]⟩)
    (completes : exempt ⟨.setCompleted, runId, [runId]⟩) :
    (Dispatcher.advanceRun cfg host runId run fuel).Marked exempt := by
  refine (Marked.ofExcept _).bind fun wf => (marked_processReady sites).bind fun _ => ?_
  refine Marked.bind (Marked.commit terminal) fun existing =>
    (Marked.ofExcept _).bind fun nodes => ?_
  refine Marked.bind ?_ fun _ => trivial
  unfold Dispatcher.completeIfSatisfied
  split
  · exact Marked.commit completes
  · trivial

theorem marked_bumpInputSpec {runId target : String} {fields : Time → List (String × Option Json)}
    (reads : exempt ⟨.patchSpecJobs, runId, []⟩) (writes : exempt ⟨.patchSpec, runId, []⟩) :
    (Dispatcher.bumpInputSpec runId target fields).Marked exempt := by
  unfold Dispatcher.bumpInputSpec
  split
  · trivial
  · refine Marked.bind (Marked.commit reads) fun existing => ?_
    split
    · exact Marked.commit writes
    · trivial

theorem marked_finishPatchJob {job : NodeJob} {fields : Dict}
    (source : exempt ⟨.patchJobs, run.id, []⟩) (reads : exempt ⟨.patchSpecJobs, run.id, []⟩)
    (writes : exempt ⟨.patchSpec, run.id, []⟩) :
    (Dispatcher.finishPatchJob cfg host run job fields).Marked exempt := by
  refine Marked.bind (Marked.commit source) fun existing => (Marked.ofExcept _).bind fun _ => ?_
  exact marked_bumpInputSpec reads writes

end Sites

end QueueWorkflows
