import QueueWorkflows.Engine.ExactlyOnce
import QueueWorkflows.Engine.Ledger
import QueueWorkflows.Engine.Reconciler

/-! GPU rows and the models they declare. `start_run` rejects a run whose DAG has a
GPU node that would be enqueued without a required model; the other entry points of
the expansion do not look. -/

namespace QueueWorkflows

open Relation (ReflTransGen)
open Transaction (Prog Pool Reach Terms follow)
open Transaction.Prog (Always Marked Outline commit ofExcept stays)
open Dispatcher (dagOf nodesOf findReadyNodes gpuOffenders)

/-- The run's DAG has a node that `start_run` would reject it for. -/
def offends (cfg : Config) (run : RunRow) : Bool :=
  match dagOf cfg run with
  | .ok nodes => !(gpuOffenders cfg nodes).isEmpty
  | .error _ => false

/-- The run exists, and its DAG passes the check. -/
def Vetted (cfg : Config) (runId : String) (db : Db) : Prop :=
  ∃ run ∈ db.runs.rows, run.id = runId ∧ offends cfg run = false

/-- A GPU row with a model, or of a module that manages its own. -/
def Declared (cfg : Config) (job : NodeJob) : Prop :=
  job.queue = .gpu → job.requiredModel.isSome = true ∨
    job.nodeModule ∈ cfg.vlmPoolNodeModules ++ cfg.gpuSelfLoadNodeModules

section Vetted

variable {cfg : Config} {db after : Db} {runId : String} {run : RunRow}

theorem offends_of_same {old new : RunRow} (same : SameRun old new) :
    offends cfg new = offends cfg old := by
  unfold offends
  rw [same.dagOf_eq]

theorem Vetted.later (vetted : Vetted cfg runId db) (evolves : Evolves cfg db after) :
    Vetted cfg runId after := by
  obtain ⟨run, member, rfl, clean⟩ := vetted
  obtain ⟨now, present, same⟩ := evolves.present run member
  exact ⟨now, present, same.id, (offends_of_same same).trans clean⟩

theorem Vetted.of_known (known : Known run db) (clean : offends cfg run = false) :
    Vetted cfg run.id db := by
  obtain ⟨now, present, same⟩ := known
  exact ⟨now, present, same.id, (offends_of_same same).trans clean⟩

theorem Vetted.clean (vetted : Vetted cfg runId db) (found : db.run? runId = some run) :
    offends cfg run = false := by
  obtain ⟨other, member, rfl, clean⟩ := vetted
  rw [Db.run?_of_mem member] at found
  cases found
  exact clean

theorem offenders_nil {wf : Workflow} {nodes : List DagNode}
    (loaded : cfg.workflowLoader run.workflowName = .ok wf)
    (expands : nodesOf cfg wf run = .ok nodes) :
    offends cfg run = false ↔ gpuOffenders cfg nodes = [] := by
  unfold offends
  rw [dagOf_of_loaded loaded expands]
  simp

/-- A node that is no offender is enqueued with a model, or manages its own. -/
theorem declared_pipelineJob {nodes : List DagNode} {node : DagNode} {resolved : Dict} {id : Nat}
    {now : Time} (clean : gpuOffenders cfg nodes = []) (member : node ∈ nodes) :
    Declared cfg ((Dispatcher.pipelineJob node run resolved).row id now) := by
  intro gpu
  have onGpu : node.gpu = true := by
    have queue : Dispatcher.queueOf node = .gpu := gpu
    unfold Dispatcher.queueOf at queue
    split at queue
    · assumption
    · cases queue
  have passed := List.filter_eq_nil_iff.mp clean node member
  simp only [onGpu, Bool.true_and, Bool.and_eq_true, Option.isNone_iff_eq_none, not_and,
    Bool.not_eq_true', Bool.not_eq_false] at passed
  cases model : nonEmpty node.model with
  | none =>
    right
    have exempt : Dispatcher.moduleOf node ∈
        cfg.vlmPoolNodeModules ++ cfg.gpuSelfLoadNodeModules := by simpa using passed model
    exact exempt
  | some name =>
    left
    simp [NodeQueue.NewJob.row, Dispatcher.pipelineJob, Dispatcher.requiredModel, onGpu, model]

end Vetted

/-! ### Outlines of the expanding paths -/

/-- Every row of the job table belongs to a run that passes the check. -/
def RowsVetted (cfg : Config) (db : Db) : Prop :=
  ∀ job ∈ db.jobs.rows, Vetted cfg job.runId db

/-- A row that is new belongs to such a run, and declares its model. -/
def AddsDeclared (cfg : Config) (db after : Db) : Prop :=
  ∀ job ∈ after.jobs.rows, (∃ old ∈ db.jobs.rows, old.key = job.key) ∨
    Vetted cfg job.runId after ∧ Declared cfg job

/-- A path counts on whatever the evolution of the store keeps. -/
def vettingTerms (cfg : Config) (granted : Site → Db → Prop) : Terms Db Site where
  stable _ held := ∀ db after, Evolves cfg db after → held db → held after
  given site db after := granted site db ∧ RowsVetted cfg db ∧ ReflTransGen (Evolves cfg) db after
  safe _ _ := True
  good := AddsDeclared cfg
  idle _ _ _ _ _ := trivial
  void _ _ _ _ impossible := impossible

section Outline

variable {cfg : Config} {granted : Site → Db → Prop} {host : Host} {fuel : Nat}
  {stale : List String} {runId : String} {run : RunRow} {assertion : Db → Prop}

theorem addsDeclared_of_old {db after : Db}
    (old : ∀ job ∈ after.jobs.rows, ∃ row ∈ db.jobs.rows, row.key = job.key) :
    AddsDeclared cfg db after := fun job member => .inl (old job member)

theorem addsDeclared_updates : Updates (fun _ => True) (AddsDeclared cfg) where
  refl _ := addsDeclared_of_old fun job member => ⟨job, member, rfl⟩
  update db selects change keeps _ := by
    refine addsDeclared_of_old fun job member => ?_
    obtain ⟨old, present, rfl⟩ := List.mem_map.mp member
    refine ⟨old, present, ?_⟩
    split
    · exact (keeps old).symm
    · rfl
  submissions _ _ := addsDeclared_of_old fun job member => ⟨job, member, rfl⟩
  updateRun _ _ _ _ _ done := by
    cases done
    exact addsDeclared_of_old fun job member => ⟨job, member, rfl⟩

/-- Where nothing is inserted, whatever evolution keeps stays asserted. -/
theorem outline_updates {α : Type} {program : Program α}
    (always : program.Always (AddsDeclared cfg))
    (kept : ∀ db after, Evolves cfg db after → assertion db → assertion after) :
    program.Outline (vettingTerms cfg granted) (fun _ => assertion) assertion := by
  induction program with
  | pure value => exact fun _ holds => holds
  | raise error => exact fun _ holds => holds
  | diverge => trivial
  | txn site act next ih =>
    refine ⟨assertion, fun _ holds => holds, kept, fun _ _ => trivial, ?_, fun _ => ih _ (always.2 _)⟩
    intro db value after holds given done
    exact ⟨always.1 db value after done, assertion, stays assertion kept given.2.2 holds,
      ih _ (always.2 _)⟩

theorem vetted_stable (db after : Db) (evolves : Evolves cfg db after)
    (vetted : Vetted cfg runId db) : Vetted cfg runId after := vetted.later evolves

/-- An insertion of a row of the run. -/
theorem outline_insertJob {site : Site} {act : Txn Nat} {job : Nat → Time → NodeJob}
    (inserts : ∀ db id after, act db = .ok (id, after) → NodeQueue.insertJob job db = .ok (id, after))
    (owner : ∀ id now, (job id now).runId = runId) (declared : ∀ id now, Declared cfg (job id now)) :
    (commit site act : Program Nat).Outline (vettingTerms cfg granted)
      (fun _ => Vetted cfg runId) (Vetted cfg runId) := by
  refine Outline.commit vetted_stable (fun _ _ => trivial) ?_ fun _ _ vetted => vetted
  intro db id after vetted given done
  have still := stays (Vetted cfg runId) vetted_stable given.2.2 vetted
  refine ⟨fun row member => ?_, still⟩
  obtain ⟨-, rows, -⟩ := insertJob_cases (inserts db id after done)
  rw [rows] at member
  rcases List.mem_append.mp member with old | last
  · exact .inl ⟨row, old, rfl⟩
  · rw [List.mem_singleton.mp last, owner]
    exact .inr ⟨still, declared _ _⟩

theorem outline_dispatchNode {existing : List NodeJob} {nodes : List DagNode} {node : DagNode}
    (clean : gpuOffenders cfg nodes = []) (member : node ∈ nodes) :
    (Dispatcher.dispatchNode cfg host stale run existing node).Outline (vettingTerms cfg granted)
      (fun _ => Vetted cfg run.id) (Vetted cfg run.id) := by
  have enqueues {new : NodeQueue.NewJob} (owner : new.runId = run.id)
      (declared : ∀ id now, Declared cfg (new.row id now)) :
      (commit ⟨.insertQueued, run.id, stale⟩ (NodeQueue.enqueueNodeJob new) :
        Program Nat).Outline (vettingTerms cfg granted) (fun _ => Vetted cfg run.id)
        (Vetted cfg run.id) := by
    refine outline_insertJob (fun db id after done => ?_) (fun _ _ => owner) declared
    unfold NodeQueue.enqueueNodeJob at done
    split at done
    · cases done
    · exact done
  refine Outline.ofExcept_bind (fun skip _ => ?_) fun _ _ vetted => vetted
  split
  · refine Outline.bind (outline_insertJob (fun _ _ _ done => done) (fun _ _ => rfl) ?_)
      (fun _ _ vetted => vetted) fun _ _ vetted => vetted
    intro _ _ gpu
    cases gpu
  · unfold Dispatcher.enqueue
    split
    · refine Outline.bind (enqueues rfl ?_) (fun _ _ vetted => vetted) fun _ _ vetted => vetted
      intro _ _ gpu
      cases gpu
    · refine Outline.bind (outline_updates addsDeclared_updates.readSiblings vetted_stable)
        (fun siblings => ?_) fun _ _ vetted => vetted
      refine Outline.ofExcept_bind (fun context _ => ?_) fun _ _ vetted => vetted
      refine Outline.ofExcept_bind (fun resolved _ => ?_) fun _ _ vetted => vetted
      refine Outline.bind (enqueues rfl ?_) (fun _ _ vetted => vetted) fun _ _ vetted => vetted
      exact fun _ _ => declared_pipelineJob clean member

theorem outline_dispatchDeclared {existing : List NodeJob} {nodes ready : List DagNode}
    (clean : gpuOffenders cfg nodes = []) (inside : ∀ node ∈ ready, node ∈ nodes) :
    (Dispatcher.dispatchReady cfg host stale run existing ready).Outline
      (vettingTerms cfg granted) (fun _ => Vetted cfg run.id) (Vetted cfg run.id) := by
  induction ready with
  | nil => exact fun _ vetted => vetted
  | cons node rest ih =>
    refine (outline_dispatchNode clean (inside node List.mem_cons_self)).bind (fun _ => ?_)
      fun _ _ vetted => vetted
    refine (ih fun other member => inside other (List.mem_cons_of_mem _ member)).bind
      (fun _ _ vetted => vetted) fun _ _ vetted => vetted

/-- One turn of the loop, after its reading of the job table. -/
theorem outline_turn {wf : Workflow} {existing : List NodeJob} {next : Program Nat}
    (loaded : cfg.workflowLoader run.workflowName = .ok wf) (clean : offends cfg run = false)
    (again : next.Outline (vettingTerms cfg granted) (fun _ => Vetted cfg run.id)
      (Vetted cfg run.id)) :
    (do
      let nodes ← ofExcept (nodesOf cfg wf run)
      let ready := findReadyNodes nodes existing
      if ready.isEmpty then
        return 0
      else
        let inserted ← Dispatcher.dispatchReady cfg host stale run existing
          (Dispatcher.byModel ready)
        let more ← next
        return inserted + more : Program Nat).Outline (vettingTerms cfg granted)
      (fun _ => Vetted cfg run.id) (Vetted cfg run.id) := by
  refine Outline.ofExcept_bind (fun nodes expands => ?_) fun _ _ vetted => vetted
  dsimp only
  split
  · exact fun _ vetted => vetted
  · have none := (offenders_nil loaded expands).mp clean
    refine Outline.bind (outline_dispatchDeclared none fun node member => ?_) (fun _ => ?_)
      fun _ _ vetted => vetted
    · exact List.mem_of_mem_filter ((List.perm_insertionSort _ _).mem_iff.mp member)
    · exact again.bind (fun _ _ vetted => vetted) fun _ _ vetted => vetted

theorem outline_processVetted {wf : Workflow}
    (loaded : cfg.workflowLoader run.workflowName = .ok wf) (clean : offends cfg run = false) :
    (Dispatcher.processReady cfg host stale wf run fuel).Outline (vettingTerms cfg granted)
      (fun _ => Vetted cfg run.id) (Vetted cfg run.id) := by
  induction fuel with
  | zero => trivial
  | succ fuel ih =>
    exact Outline.bind (outline_updates addsDeclared_updates.listJobs vetted_stable)
      (fun existing => outline_turn loaded clean ih) fun _ _ vetted => vetted

theorem outline_getRun {α : Type} {site : Site} {rest : Option RunRow → Program α}
    {post : Except PyErr α → Db → Prop} (kept : ∀ db after, Evolves cfg db after →
      assertion db → assertion after)
    (none : (rest none).Outline (vettingTerms cfg granted) post assertion)
    (some : ∀ db run, assertion db → db.run? runId = some run →
      (rest (some run)).Outline (vettingTerms cfg granted) post fun db => Known run db)
    (raises : ∀ error db, assertion db → post (.error error) db) :
    (commit site (RunStore.getRun runId) >>= rest).Outline (vettingTerms cfg granted) post
      assertion := by
  refine Outline.commit_bind kept (fun _ _ => trivial) ?_ raises
  intro db found after holds _ done
  cases done
  refine ⟨addsDeclared_updates.refl db, ?_⟩
  cases row : db.run? runId with
  | none => exact ⟨assertion, holds, none⟩
  | some run => exact ⟨Known run, Known.of_run? row, some db run holds row⟩

theorem known_stable (db after : Db) (evolves : Evolves cfg db after) (known : Known run db) :
    Known run after := known.later evolves

theorem outline_startRun :
    (Dispatcher.startRun cfg host stale runId fuel).Outline (vettingTerms cfg granted)
      (fun _ _ => True) fun _ => True := by
  refine outline_getRun (fun _ _ _ holds => holds) (fun _ _ => trivial) ?_ fun _ _ _ => trivial
  intro db run _ _
  refine Outline.ofExcept_bind (fun wf loaded => ?_) fun _ _ _ => trivial
  cases asserted : Dispatcher.assertGpuNodesDeclareModel cfg wf run with
  | ok _ =>
    obtain ⟨nodes, expands, empty⟩ := (Dispatcher.assertGpuNodesDeclareModel_ok cfg).mp asserted
    have clean := (offenders_nil loaded expands).mpr empty
    exact ((outline_processVetted loaded clean).weaken fun _ known =>
      Vetted.of_known known clean).imp fun _ _ _ => trivial
  | error error =>
    dsimp only
    split
    · refine Outline.of_always (Always.bind (Always.commit fun db _ after done => ?_)
        fun _ => trivial) (fun _ _ => trivial) fun _ _ => trivial
      exact addsDeclared_updates.updateRun _ trivial db _ after done
    · exact fun _ _ => trivial

theorem addsDeclared_delete {site : Site} :
    (commit site (NodeQueue.deleteNonTerminalJobsForRun runId)).Always (AddsDeclared cfg) := by
  refine Always.commit fun db dropped after done => ?_
  cases done
  exact addsDeclared_of_old fun job member => ⟨job, List.mem_of_mem_filter member, rfl⟩

theorem outline_vetRestart :
    (NodePool.restartRun cfg host fuel runId).Outline (vettingTerms cfg granted)
      (fun _ _ => True) fun _ => True := by
  have deletes : (commit ⟨.restartDelete, runId, []⟩
      (NodeQueue.deleteNonTerminalJobsForRun runId) : Program (List String)).Outline
      (vettingTerms cfg granted) (fun _ _ => True) fun _ => True :=
    Outline.of_always addsDeclared_delete (fun _ _ => trivial) fun _ _ => trivial
  exact deletes.seq fun _ => outline_startRun.seq fun _ _ _ => trivial

theorem outline_expandRuns {runIds : List String} :
    (NodePool.expandRuns cfg host fuel runIds).Outline (vettingTerms cfg granted)
      (fun _ _ => True) fun _ => True := by
  induction runIds with
  | nil => exact fun _ _ => trivial
  | cons runId rest ih =>
    have turn : (NodePool.expandRun cfg host fuel (runId :: rest) runId).Outline
        (vettingTerms cfg granted) (fun _ _ => True) fun _ => True := by
      refine outline_startRun.bind (fun inserted => ?_) fun _ _ _ => trivial
      split
      · refine Outline.of_always (Always.commit fun db _ after done => ?_) (fun _ _ => trivial)
          fun _ _ => trivial
        exact addsDeclared_updates.updateRun _ trivial db _ after done
      · exact fun _ _ => trivial
    refine Outline.seq (turn.caught fun error => ?_) fun _ => ih
    exact fun _ _ => trivial

theorem outline_advanceRun (clean : offends cfg run = false) :
    (Dispatcher.advanceRun cfg host runId run fuel).Outline (vettingTerms cfg granted)
      (fun _ _ => True) (Known run) := by
  refine Outline.ofExcept_bind (fun wf loaded => ?_) fun _ _ _ => trivial
  have expands : (Dispatcher.processReady cfg host [runId] wf run fuel).Outline
      (vettingTerms cfg granted) (fun _ _ => True) (Known run) :=
    ((outline_processVetted loaded clean).weaken fun _ known =>
      Vetted.of_known known clean).imp fun _ _ _ => trivial
  refine expands.bind (fun _ => ?_) fun _ _ _ => trivial
  refine Outline.of_always ?_ (fun _ _ => trivial) fun _ _ => trivial
  refine addsDeclared_updates.listJobs.bind fun existing => (Always.ofExcept _).bind fun nodes => ?_
  refine Always.bind ?_ fun _ => trivial
  unfold Dispatcher.completeIfSatisfied
  split
  · exact Always.commit fun db _ after done =>
      addsDeclared_updates.updateRun _ trivial db _ after done
  · trivial

theorem outline_completed {nodeId : String} :
    (Dispatcher.onNodeCompleted cfg host runId nodeId fuel).Outline (vettingTerms cfg granted)
      (fun _ _ => True) (Vetted cfg runId) := by
  refine outline_getRun vetted_stable (fun _ _ => trivial) ?_ fun _ _ _ => trivial
  intro db run vetted found
  have clean := vetted.clean found
  dsimp only
  split
  · exact fun _ _ => trivial
  · refine Outline.bind (outline_updates addsDeclared_updates.listJobs known_stable)
      (fun existing => ?_) fun _ _ _ => trivial
    split
    · refine Outline.of_always ?_ (fun _ _ => trivial) fun _ _ => trivial
      exact (addsDeclared_updates.parks.finishPatchJob trivial).bind fun _ => trivial
    · exact outline_advanceRun clean

/-- The completed nodes of the events are in runs that pass the check. -/
def BatchVetted (cfg : Config) (batch : List DispatchEvent) (db : Db) : Prop :=
  ∀ event ∈ batch, event.kind = .completed → Vetted cfg event.runId db

theorem batchVetted_stable {batch : List DispatchEvent} (db after : Db)
    (evolves : Evolves cfg db after) (vetted : BatchVetted cfg batch db) :
    BatchVetted cfg batch after :=
  fun event member completed => (vetted event member completed).later evolves

/-- A path may carry along what the evolution of the store keeps. -/
theorem outline_carry {α : Type} {carried : Db → Prop} {program : Program α}
    {post : Except PyErr α → Db → Prop}
    (outline : program.Outline (vettingTerms cfg granted) post assertion)
    (kept : ∀ db after, Evolves cfg db after → carried db → carried after) :
    program.Outline (vettingTerms cfg granted) (fun outcome db => post outcome db ∧ carried db)
      fun db => assertion db ∧ carried db := by
  refine outline.frame (fun _ held stable => ?_) fun _ db after given carries => ?_
  · intro db after evolves holds
    exact ⟨stable db after evolves holds.1, kept db after evolves holds.2⟩
  · exact stays carried kept given.2.2 carries

theorem outline_handleEvent {event : DispatchEvent} :
    (NodePool.handleEvent cfg host fuel event).Outline (vettingTerms cfg granted)
      (fun _ _ => True) fun db => event.kind = .completed → Vetted cfg event.runId db := by
  have calls : (NodePool.callback cfg host fuel event).Outline (vettingTerms cfg granted)
      (fun _ _ => True) fun db => event.kind = .completed → Vetted cfg event.runId db := by
    unfold NodePool.callback
    split
    · rename_i completed
      exact (outline_completed.weaken fun _ vetted => vetted completed).seq fun _ _ _ => trivial
    · exact Outline.of_always (addsDeclared_updates.onNodeFailed trivial) (fun _ _ => trivial)
        fun _ _ => trivial
    · exact Outline.of_always (addsDeclared_updates.parks.onNodeAwaitingInput trivial) (fun _ _ => trivial)
        fun _ _ => trivial
  refine Outline.caught (calls.seq fun _ => ?_) fun _ => ?_
  all_goals exact fun _ _ => trivial

theorem outline_lockRun {handled : NodePool.Handled} :
    (NodePool.lockRun handled).Outline (vettingTerms cfg granted) (fun _ _ => True)
      fun _ => True :=
  Outline.of_always addsDeclared_updates.lockRun (fun _ _ => trivial) fun _ _ => trivial

theorem outline_handleEvents {batch : List DispatchEvent} {locked : List String} :
    (NodePool.handleEvents cfg host fuel locked batch).Outline (vettingTerms cfg granted)
      (fun _ _ => True) (BatchVetted cfg batch) := by
  induction batch generalizing locked with
  | nil => exact fun _ _ => trivial
  | cons event rest ih =>
    have first : (NodePool.handleEvent cfg host fuel event).Outline (vettingTerms cfg granted)
        (fun _ db => True ∧ BatchVetted cfg rest db) fun db =>
          (event.kind = .completed → Vetted cfg event.runId db) ∧ BatchVetted cfg rest db :=
      outline_carry outline_handleEvent batchVetted_stable
    refine Outline.bind ((first.awaiting _).weaken fun db vetted => ?_) (fun _ => ?_)
      fun _ _ _ => trivial
    · exact ⟨vetted event List.mem_cons_self, fun other member =>
        vetted other (List.mem_cons_of_mem _ member)⟩
    · refine (outline_carry outline_lockRun batchVetted_stable).bind (fun _ => ?_) fun _ _ _ => trivial
      exact (ih.weaken fun _ carried => carried.2).seq fun _ _ _ => trivial

theorem outline_drain {batch : List DispatchEvent} :
    (NodePool.drainDispatchEvents cfg host fuel batch).Outline (vettingTerms cfg granted)
      (fun _ _ => True) (BatchVetted cfg batch) := by
  refine outline_handleEvents.bind (fun handled => ?_) fun _ _ _ => trivial
  refine Outline.of_always (Always.commit fun db _ after done => ?_) (fun _ _ => trivial)
    fun _ _ => trivial
  cases done
  refine addsDeclared_of_old fun job member => ⟨job, ?_, rfl⟩
  rwa [(bookkept_foldl (.refl db) handled).jobs] at member

theorem outline_resume {nodeId : String} {value : Json} :
    (Dispatcher.resumeAfterInput cfg host runId nodeId value fuel).Outline
      (vettingTerms cfg granted) (fun _ _ => True) fun _ => True := by
  refine Outline.commit_bind (fun _ _ _ holds => holds) (fun _ _ => trivial) ?_
    fun _ _ _ => trivial
  intro db existing after _ given done
  cases done
  refine ⟨addsDeclared_updates.refl db, ?_⟩
  cases found : (db.jobsOf runId).find? fun job => job.nodeId == nodeId with
  | none => exact ⟨fun _ => True, trivial, fun _ _ => trivial⟩
  | some job =>
    -- the row it found is in a run that passes the check
    have listed := Db.mem_jobsOf.mp (List.mem_of_find?_eq_some found)
    have vetted : Vetted cfg runId db := listed.2 ▸ given.2.1 job listed.1
    refine ⟨Vetted cfg runId, vetted, ?_⟩
    dsimp only
    split
    · refine Outline.ofExcept_bind (fun delta _ => ?_) fun _ _ _ => trivial
      have marks : (commit ⟨.resumeMark, runId, []⟩ (NodeQueue.markCompletedInTxn job.id delta) :
          Program (Option NodeJob)).Always (AddsDeclared cfg) := by
        refine Always.commit fun db _ after done => ?_
        cases done
        exact addsDeclared_updates.update db _ _ _ fun _ => ⟨.inr rfl, rfl⟩
      exact Outline.bind (outline_updates marks vetted_stable) (fun _ => outline_completed)
        fun _ _ _ => trivial
    · exact fun _ _ => trivial

theorem outline_listener {rows : List InputSubmission} :
    (InputListener.processRows cfg host fuel rows).Outline (vettingTerms cfg granted)
      (fun _ _ => True) fun _ => True := by
  induction rows with
  | nil => exact fun _ _ => trivial
  | cons row rest ih =>
    have resumes : (InputListener.resumeRow cfg host fuel row).Outline (vettingTerms cfg granted)
        (fun _ _ => True) fun _ => True := by
      refine Outline.caught (outline_resume.seq fun _ => ?_) fun _ => ?_
      all_goals exact fun _ _ => trivial
    have first : (InputListener.processRow cfg host fuel row).Outline (vettingTerms cfg granted)
        (fun _ _ => True) fun _ => True := by
      refine resumes.seq fun failure => ?_
      cases failure with
      | none =>
        exact Outline.of_always addsDeclared_updates.settleSubmission (fun _ _ => trivial)
          fun _ _ => trivial
      | some error =>
        exact Outline.of_always addsDeclared_updates.settleSubmission (fun _ _ => trivial)
          fun _ _ => trivial
    exact first.seq fun _ => ih

end Outline

/-! ### The sweep -/

/-- A sweep lists the ready nodes of runs that pass the check only. -/
def listsVetted (cfg : Config) (site : Site) (db : Db) : Prop :=
  site.place = .readyJobs → ∀ run, db.run? site.run = some run → offends cfg run = false

section Sweep

variable {cfg : Config} {host : Host} {fuel : Nat} {stale : List String} {runId : String}
  {run : RunRow}

theorem outline_processListed {wf : Workflow}
    (loaded : cfg.workflowLoader run.workflowName = .ok wf) :
    (Dispatcher.processReady cfg host stale wf run fuel).Outline
      (vettingTerms cfg (listsVetted cfg)) (fun _ => Known run) (Known run) := by
  induction fuel with
  | zero => trivial
  | succ fuel ih =>
    refine Outline.commit_bind known_stable (fun _ _ => trivial) ?_ fun _ _ known => known
    intro db existing after known given done
    cases done
    refine ⟨addsDeclared_updates.refl db, Known run, known, ?_⟩
    have clean : offends cfg run = false := by
      obtain ⟨now, present, same⟩ := known
      have found : db.run? run.id = some now := same.id ▸ Db.run?_of_mem present
      rw [← offends_of_same same]
      exact given.1 rfl now found
    have kept : ∀ db after, Evolves cfg db after → Known run db → Known run after := known_stable
    refine Outline.imp (Outline.weaken (outline_carry
      (outline_turn loaded clean (outline_processVetted loaded clean)) kept) ?_) ?_
    · exact fun _ known => ⟨Vetted.of_known known clean, known⟩
    · exact fun _ _ carried => carried.2

theorem outline_reconcile :
    (Dispatcher.reconcileRun cfg host runId fuel).Outline (vettingTerms cfg (listsVetted cfg))
      (fun _ _ => True) fun _ => True := by
  have finishes {program : Program Dispatcher.Reconciled} {assertion : Db → Prop}
      (always : program.Always (AddsDeclared cfg)) :
      program.Outline (vettingTerms cfg (listsVetted cfg)) (fun _ _ => True) assertion :=
    Outline.of_always always (fun _ _ => trivial) fun _ _ => trivial
  have runs {answer : Dispatcher.Reconciled} : (do Dispatcher.setRunning runId; return answer :
      Program Dispatcher.Reconciled).Always (AddsDeclared cfg) :=
    (addsDeclared_updates.setRunning trivial).bind fun _ => trivial
  refine outline_getRun (fun _ _ _ holds => holds) (fun _ _ => trivial) ?_ fun _ _ _ => trivial
  intro db run _ found
  dsimp only
  split
  · exact fun _ _ => trivial
  refine Outline.bind (outline_updates addsDeclared_updates.listJobs known_stable)
    (fun existing => ?_) fun _ _ _ => trivial
  split
  · exact fun _ _ => trivial
  refine Outline.ofExcept_bind (fun wf loaded => ?_) fun _ _ _ => trivial
  refine Outline.ofExcept_bind (fun nodes _ => ?_) fun _ _ _ => trivial
  split
  · refine finishes (Always.bind (Always.commit fun db _ after done => ?_) fun _ => trivial)
    exact addsDeclared_updates.updateRun _ trivial db _ after done
  refine (outline_processListed loaded).bind (fun expanded => ?_) fun _ _ _ => trivial
  split
  · exact finishes runs
  refine Outline.bind (outline_updates addsDeclared_delete known_stable) (fun dropped => ?_)
    fun _ _ _ => trivial
  have expands : (Dispatcher.expandDropped cfg host runId wf run fuel dropped).Outline
      (vettingTerms cfg (listsVetted cfg)) (fun _ _ => True) (Known run) := by
    unfold Dispatcher.expandDropped
    split
    · exact fun _ _ => trivial
    · exact (outline_processListed loaded).imp fun _ _ _ => trivial
  refine expands.seq fun count => ?_
  split
  · exact finishes runs
  · refine finishes (Always.bind (Always.commit fun db _ after done => ?_) fun _ => trivial)
    exact addsDeclared_updates.updateRun _ trivial db _ after done

theorem outline_vetSweep {runIds : List String} :
    (NodePool.sweepStuckRuns cfg host fuel runIds).Outline (vettingTerms cfg (listsVetted cfg))
      (fun _ _ => True) fun _ => True := by
  induction runIds with
  | nil => exact fun _ _ => trivial
  | cons runId rest ih =>
    have first : (do let _ ← Dispatcher.reconcileRun cfg host runId fuel : Program Unit).Outline
        (vettingTerms cfg (listsVetted cfg)) (fun _ _ => True) fun _ => True :=
      outline_reconcile.seq fun _ _ _ => trivial
    refine Outline.seq (first.caught fun error => ?_) fun _ => ih
    exact fun _ _ => trivial

end Sweep

/-! ### The system -/

section System

variable {cfg : Config} {sys after : Sys} {label : Label}

/-- The paths that call into the dispatcher, the sweep apart. -/
def Role.dispatches : Role → Prop
  | .execution _ | .trip _ | .sweep _ => False
  | _ => True

/-- A statement of the host adds rows to runs that pass the check only. -/
def patchesVetted (cfg : Config) (sys : Sys) (label : Label) : Bool :=
  label.mover.isSome || (step cfg sys label).all fun after => after.store.jobs.rows.all fun job =>
    (sys.store.jobs.rows.any fun old => old.key == job.key) ||
      (after.store.run? job.runId).any fun run => !offends cfg run

/-- A sweep lists the ready nodes of such runs only. -/
def sweepsVetted (cfg : Config) (sys : Sys) (label : Label) : Bool :=
  (label.mover.bind fun index => sys.actors[index]?).all fun path =>
    match path.role, path.prog.site? with
    | .sweep _, some site => site.place != .readyJobs ||
        (sys.store.run? site.run).all fun run => !offends cfg run
    | _, _ => true

def expandsVetted (cfg : Config) (sys : Sys) (label : Label) : Bool :=
  patchesVetted cfg sys label && sweepsVetted cfg sys label

/-- Rows and completions are those of runs that pass the check, and the paths that
expand runs stand on their outlines. -/
structure Vetting (cfg : Config) (sys : Sys) : Prop where
  rows : RowsVetted cfg sys.store
  events : BatchVetted cfg sys.store.events sys.store
  calls : Outlines (vettingTerms cfg fun _ _ => True) Role.dispatches sys
  sweeps : Outlines (vettingTerms cfg (listsVetted cfg)) Role.isSweep sys

theorem listsVetted_of_allowed {index : Nat} {path : Path} {site : Site}
    (allowed : sweepsVetted cfg sys label = true) (found : sys.actors[index]? = some path)
    (own : label.mover = some index) (covered : Role.isSweep path.role)
    (stands : path.prog.site? = some site) : listsVetted cfg site sys.store := by
  intro reads run present
  cases role : path.role <;> rw [role] at covered <;> try exact covered.elim
  simp only [sweepsVetted, own, Option.bind_some, found, Option.all_some, role, stands, reads,
    bne_self_eq_false, Bool.false_or, present, Bool.not_eq_true'] at allowed
  exact allowed

/-- A path's own transaction adds rows that declare their model. -/
theorem advance_adds {ok : Sys → Label → Bool} {index : Nat}
    (reached : Reach (step cfg) ok Sys.empty sys) (vetting : Vetting cfg sys)
    (allowed : sweepsVetted cfg sys (.advance index) = true)
    (stepped : step cfg sys (.advance index) = some after) :
    AddsDeclared cfg sys.store after.store := by
  have evolves := (step_wellformed (reach_wellformed wellformed_empty reached).2 stepped).1
  obtain ⟨path, rest, found, -, -⟩ := Pool.advance_cases stepped
  have unchanged (same : after.store = sys.store) : AddsDeclared cfg sys.store after.store := by
    rw [same]
    exact addsDeclared_updates.refl sys.store
  have calls (covered : Role.dispatches path.role) : AddsDeclared cfg sys.store after.store := by
    rcases vetting.calls.good found covered
      (fun _ _ => ⟨trivial, vetting.rows, evolves⟩) stepped with same | adds
    · exact unchanged same
    · exact adds
  have works (job : NodeJob) (role : path.role = .execution job ∨ path.role = .trip job) :
      AddsDeclared cfg sys.store after.store := by
    obtain ⟨⟨change, write⟩, -⟩ := worker_advance reached found role stepped
    refine addsDeclared_of_old fun row member => ?_
    rw [write.rows] at member
    obtain ⟨old, present, rfl⟩ := List.mem_map.mp member
    refine ⟨old, present, ?_⟩
    split
    · exact (write.keys old).symm
    · rfl
  cases role : path.role with
  | execution job => exact works job (.inl role)
  | trip job => exact works job (.inr role)
  | sweep =>
    have covered : Role.isSweep path.role := by
      rw [role]
      trivial
    rcases vetting.sweeps.good found covered (fun site stands =>
      ⟨listsVetted_of_allowed allowed found rfl covered stands, vetting.rows, evolves⟩) stepped with
      same | adds
    · exact unchanged same
    · exact adds
  | _ =>
    refine calls ?_
    rw [role]
    trivial

theorem step_rows {ok : Sys → Label → Bool} (reached : Reach (step cfg) ok Sys.empty sys)
    (vetting : Vetting cfg sys) (allowed : expandsVetted cfg sys label = true)
    (stepped : step cfg sys label = some after) : RowsVetted cfg after.store := by
  have evolves := (step_wellformed (reach_wellformed wellformed_empty reached).2 stepped).1
  obtain ⟨patches, sweeps⟩ := Bool.and_eq_true_iff.mp allowed
  intro job member
  have kept (old : ∃ row ∈ sys.store.jobs.rows, row.key = job.key) :
      Vetted cfg job.runId after.store := by
    obtain ⟨row, present, key⟩ := old
    have same : row.runId = job.runId := congrArg (·.2.1) key
    rw [← same]
    exact stays (Vetted cfg row.runId) vetted_stable evolves (vetting.rows row present)
  cases mover : label.mover with
  | some index =>
    have own : label = .advance index := by
      cases label <;> cases mover
      rfl
    subst own
    rcases advance_adds reached vetting sweeps stepped job member with old | ⟨vetted, -⟩
    · exact kept old
    · exact vetted
  | none =>
    simp only [patchesVetted, mover, Option.isSome_none, Bool.false_or, stepped, Option.all_some,
      List.all_eq_true, Bool.or_eq_true, List.any_eq_true, beq_iff_eq, Option.any_eq_true,
      Bool.not_eq_true'] at patches
    rcases patches job member with old | ⟨run, found, clean⟩
    · exact kept old
    · obtain ⟨present, named⟩ := Db.run?_mem found
      exact ⟨run, present, named, clean⟩

theorem step_events {ok : Sys → Label → Bool} (reached : Reach (step cfg) ok Sys.empty sys)
    (vetting : Vetting cfg sys) (stepped : step cfg sys label = some after) :
    BatchVetted cfg after.store.events after.store := by
  have evolves := (step_wellformed (reach_wellformed wellformed_empty reached).2 stepped).1
  intro event member completed
  refine stays (Vetted cfg event.runId) vetted_stable evolves ?_
  have kept (silent : Silent sys.store after.store) : Vetted cfg event.runId sys.store := by
    have listed := List.mem_map_of_mem (f := DispatchEvent.ident) member
    rw [silent] at listed
    obtain ⟨old, present, ident⟩ := List.mem_map.mp listed
    simp only [DispatchEvent.ident, Prod.mk.injEq] at ident
    rw [← ident.2.1]
    exact vetting.events old present (ident.2.2.2.trans completed)
  cases worker : workerStep sys label with
  | false => exact kept (step_silent reached stepped worker)
  | true =>
    obtain ⟨index, path, job, rfl, acting, role⟩ := workerStep_cases worker
    obtain ⟨⟨change, write⟩, -⟩ := worker_advance reached acting role stepped
    rcases write.emits with ⟨same, -⟩ | ⟨other, appended, parked, -⟩ |
      ⟨other, appended, row, present, -, -, cell, -⟩
    · exact vetting.events event (same ▸ member) completed
    · rw [appended] at member
      rcases List.mem_append.mp member with old | last
      · exact vetting.events event old completed
      · rw [List.mem_singleton.mp last, parked] at completed
        cases completed
    · rw [appended] at member
      rcases List.mem_append.mp member with old | last
      · exact vetting.events event old completed
      · rw [List.mem_singleton.mp last, cell.1]
        exact vetting.rows row present

theorem starts_vetting {db : Db} {role : Role} {prog : Program Unit}
    (events : BatchVetted cfg sys.store.events sys.store)
    (starts : Starts cfg sys label db role prog) (covered : Role.dispatches role) :
    Pool.Outlined (vettingTerms cfg fun _ _ => True) ⟨role, prog⟩ db := by
  cases starts with
  | restart => exact ⟨_, trivial, outline_vetRestart⟩
  | expand => exact ⟨_, trivial, outline_expandRuns⟩
  | drain =>
    refine ⟨_, fun event member completed => ?_, outline_drain⟩
    exact events event (mem_drainBatch member).1 completed
  | poll => exact ⟨_, trivial, outline_listener⟩
  | _ => exact covered.elim

theorem reach_vetting (reached : Reach (step cfg) (expandsVetted cfg) Sys.empty sys) :
    Vetting cfg sys := by
  induction reached with
  | start =>
    constructor
    all_goals exact fun _ member => nomatch member
  | @next before after label reached allowed stepped vetting =>
    have evolves := (step_wellformed (reach_wellformed wellformed_empty reached).2 stepped).1
    have unbroken {granted : Site → Db → Prop} {site : Site} {held : Db → Prop}
        (stable : (vettingTerms cfg granted).stable site held) (holds : held before.store) :
        held after.store := stays held stable evolves holds
    refine ⟨step_rows reached vetting allowed stepped, step_events reached vetting stepped, ?_, ?_⟩
    · refine step_outlines vetting.calls (fun _ _ _ _ _ _ _ _ stable holds => unbroken stable holds)
        (fun _ _ _ _ _ _ _ => ⟨trivial, vetting.rows, evolves⟩) ?_ stepped
      intro role prog starts covered
      exact starts_vetting vetting.events starts covered
    · refine step_outlines vetting.sweeps (fun _ _ _ _ _ _ _ _ stable holds => unbroken stable holds)
        ?_ ?_ stepped
      · intro index path found own covered site stands
        exact ⟨listsVetted_of_allowed (Bool.and_eq_true_iff.mp allowed).2 found own covered stands,
          vetting.rows, evolves⟩
      · intro role prog starts covered
        generalize after.store = db at starts
        cases starts with
        | sweep => exact ⟨_, trivial, outline_vetSweep⟩
        | _ => exact covered.elim

/-- No path of the engine inserts a GPU row without a model, as long as a sweep lists
the ready nodes of no run that `start_run` would reject, and the host adds no row of
its own to one. -/
theorem gpu_rows_declare_model {index : Nat}
    (reached : Reach (step cfg) (expandsVetted cfg) Sys.empty sys)
    (allowed : expandsVetted cfg sys (.advance index) = true)
    (stepped : step cfg sys (.advance index) = some after) :
    ∀ job ∈ after.store.jobs.rows, (∀ old ∈ sys.store.jobs.rows, old.id ≠ job.id) →
      job.queue = .gpu → job.requiredModel.isSome = true ∨
        job.nodeModule ∈ cfg.vlmPoolNodeModules ++ cfg.gpuSelfLoadNodeModules := by
  intro job member fresh
  rcases advance_adds reached (reach_vetting reached) (Bool.and_eq_true_iff.mp allowed).2 stepped
    job member with ⟨old, present, key⟩ | ⟨-, declared⟩
  · exact absurd (congrArg Prod.fst key) (fresh old present)
  · exact declared

/-- One pipeline step with a GPU node, and the model it declares. -/
def Sample.gpuConfig (model : Option String) : Config where
  workflowLoader _ := .ok { steps := [{ id := "render", kind := .pipeline, pipeline := "one" }] }
  pipelineSchemaLoader _ := .ok [{ id := "n", gpu := true, model := model }]
  resolveRef value _ := .ok value
  literalEval _ := none
  jsonLoads _ := none
  strOf _ := ""

/-- A run nobody has expanded yet is swept: it has no live row. -/
def Sample.sweptFirst : List Label :=
  List.flatten [[.insertRun Sample.run, .sweep Sample.host 2], List.replicate 4 (.advance 0)]

theorem swept_row_declares_model : ∃ sys after : Sys,
    step (Sample.gpuConfig (some "flux")) sys (.advance 0) = some after ∧ sys.store.jobs.rows = [] ∧
    (after.store.jobs.rows.map fun job => (job.queue, job.requiredModel)) =
      [(.gpu, some "flux")] ∧
    ∀ job ∈ after.store.jobs.rows, (∀ old ∈ sys.store.jobs.rows, old.id ≠ job.id) →
      job.queue = .gpu → job.requiredModel.isSome = true ∨
        job.nodeModule ∈ (Sample.gpuConfig (some "flux")).vlmPoolNodeModules ++
          (Sample.gpuConfig (some "flux")).gpuSelfLoadNodeModules := by
  have reached : Reach (step (Sample.gpuConfig (some "flux"))) (expandsVetted (Sample.gpuConfig (some "flux")))
      Sys.empty ((follow (step (Sample.gpuConfig (some "flux"))) (expandsVetted (Sample.gpuConfig (some "flux")))
        Sys.empty Sample.sweptFirst).getD Sys.empty) :=
    Reach.follow_getD Sample.sweptFirst (by decide +kernel)
  have inserts : ((step (Sample.gpuConfig (some "flux")) ((follow (step (Sample.gpuConfig (some "flux")))
      (expandsVetted (Sample.gpuConfig (some "flux"))) Sys.empty Sample.sweptFirst).getD Sys.empty)
      (.advance 0)).map fun after => after.store.jobs.rows.map fun job =>
        (job.queue, job.requiredModel)) = some [(.gpu, some "flux")] := by decide +kernel
  obtain ⟨after, stepped, rows⟩ := Option.map_eq_some_iff.mp inserts
  exact ⟨_, after, stepped, by decide +kernel, rows,
    gpu_rows_declare_model reached (by decide +kernel) stepped⟩

/-- With no model declared, the sweep inserts the row that `start_run` would have
failed the run for. -/
theorem model_blind_row_swept : ∃ sys after : Sys,
    Reach (step (Sample.gpuConfig none)) anyStep Sys.empty sys ∧
    (sys.actors[0]?.map fun path => path.role matches .sweep _) = some true ∧
    step (Sample.gpuConfig none) sys (.advance 0) = some after ∧ sys.store.jobs.rows = [] ∧
    (after.store.jobs.rows.map fun job => (job.queue, job.requiredModel, job.nodeModule)) =
      [(.gpu, none, "n")] ∧
    (Sample.gpuConfig none).vlmPoolNodeModules ++ (Sample.gpuConfig none).gpuSelfLoadNodeModules =
      [] := by
  have reached : Reach (step (Sample.gpuConfig none)) anyStep Sys.empty
      ((follow (step (Sample.gpuConfig none)) anyStep Sys.empty Sample.sweptFirst).getD Sys.empty) :=
    Reach.follow_getD Sample.sweptFirst (by decide +kernel)
  have inserts : ((step (Sample.gpuConfig none) ((follow (step (Sample.gpuConfig none)) anyStep
      Sys.empty Sample.sweptFirst).getD Sys.empty) (.advance 0)).map fun after =>
        after.store.jobs.rows.map fun job => (job.queue, job.requiredModel, job.nodeModule)) =
      some [(.gpu, none, "n")] := by decide +kernel
  obtain ⟨after, stepped, rows⟩ := Option.map_eq_some_iff.mp inserts
  exact ⟨_, after, reached, by decide +kernel, stepped, by decide +kernel, rows, rfl⟩

end System

end QueueWorkflows
