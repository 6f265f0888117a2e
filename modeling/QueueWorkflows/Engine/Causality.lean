import QueueWorkflows.Engine.Evolution

/-! Every statement of the engine evolves the store, and so does every path, with
any others in between. -/

namespace QueueWorkflows

open Relation (ReflTransGen)
open Transaction (Prog Pool)
open Transaction.Prog (Safe commit ofExcept stays)
open Dispatcher (dagOf nodesOf findReadyNodes allSatisfied)

/-! ### Rows a statement may move -/

theorem Moved.of_open {old new : NodeJob} (key : new.key = old.key) (inputs : new.inputs = old.inputs)
    (unsettled : old.status.final = false) (status : new.status ≠ .skipped) : Moved old new where
  key := key
  inputs := inputs
  settled final := by simp [unsettled] at final
  unskipped skipped := absurd skipped status

/-- A change of bookkeeping columns only. -/
theorem Moved.of_same_status {old new : NodeJob} (key : new.key = old.key)
    (inputs : new.inputs = old.inputs) (status : new.status = old.status)
    (outcome : new.contextDelta = old.contextDelta ∧ new.error = old.error ∧
      new.finishedAt = old.finishedAt) : Moved old new where
  key := key
  inputs := inputs
  settled _ := ⟨status, outcome⟩
  unskipped skipped := status.symm.trans skipped

theorem moved_released {job : NodeJob} (running : job.status = .running) :
    Moved job (NodeQueue.released job) :=
  .of_open rfl rfl (by simp [running, JobStatus.final, JobStatus.closed]) (by simp [NodeQueue.released])

/-- No row of this id is, or will be, a skip marker. -/
def NotSkipped (jobId : Nat) (db : Db) : Prop :=
  jobId < db.nextJob ∧ ∀ job ∈ db.jobs.rows, job.id = jobId → job.status ≠ .skipped

section Stable

variable {cfg : Config} {before after : Db}

theorem NotSkipped.later {jobId : Nat} (evolves : Evolves cfg before after)
    (now : NotSkipped jobId before) : NotSkipped jobId after := by
  obtain ⟨used, clear⟩ := now
  refine ⟨used.trans_le evolves.sequence, fun job member same skipped => ?_⟩
  rcases evolves.rows job member with ⟨old, present, moved⟩ | ⟨fresh, -, -⟩
  · exact clear old present (moved.id.symm.trans same) (moved.unskipped skipped)
  · omega

theorem NotSkipped.since {jobId : Nat} (now : NotSkipped jobId before)
    (moved : ReflTransGen (Evolves cfg) before after) : NotSkipped jobId after :=
  stays (NotSkipped jobId) (fun _ _ => NotSkipped.later) moved now

/-- The row of this id, if it is still there, is the one the path was given. -/
def Agrees (job : NodeJob) (db : Db) : Prop :=
  job.id < db.nextJob ∧ ∀ row ∈ db.jobs.rows, row.id = job.id → row.key = job.key

theorem Agrees.later {job : NodeJob} (evolves : Evolves cfg before after)
    (now : Agrees job before) : Agrees job after := by
  obtain ⟨used, agrees⟩ := now
  refine ⟨used.trans_le evolves.sequence, fun row member same => ?_⟩
  rcases evolves.rows row member with ⟨old, present, moved⟩ | ⟨fresh, -, -⟩
  · exact moved.key.trans (agrees old present (moved.id.symm.trans same))
  · omega

theorem Agrees.since {job : NodeJob} (now : Agrees job before)
    (moved : ReflTransGen (Evolves cfg) before after) : Agrees job after :=
  stays (Agrees job) (fun _ _ => Agrees.later) moved now

/-- The store still has the run that a path read earlier. -/
def Known (run : RunRow) (db : Db) : Prop :=
  ∃ now ∈ db.runs.rows, SameRun run now

theorem Known.later {run : RunRow} (evolves : Evolves cfg before after)
    (now : Known run before) : Known run after := by
  obtain ⟨row, member, same⟩ := now
  obtain ⟨next, present, still⟩ := evolves.present row member
  exact ⟨next, present, same.trans still⟩

theorem Known.since {run : RunRow} (now : Known run before)
    (moved : ReflTransGen (Evolves cfg) before after) : Known run after :=
  stays (Known run) (fun _ _ => Known.later) moved now

theorem Known.of_run? {db : Db} {runId : String} {run : RunRow}
    (found : db.run? runId = some run) : Known run db :=
  ⟨run, (Db.run?_mem found).1, .refl run⟩

/-- A node of the run's DAG whose dependencies are met. -/
def Eligible (cfg : Config) (run : RunRow) (node : DagNode) (db : Db) : Prop :=
  ∃ nodes, dagOf cfg run = .ok nodes ∧ node ∈ nodes ∧
    ∀ dep ∈ node.dependsOn, Satisfied db run.id dep

theorem Eligible.later {run : RunRow} {node : DagNode} (evolves : Evolves cfg before after)
    (now : Eligible cfg run node before) : Eligible cfg run node after := by
  obtain ⟨nodes, expands, member, met⟩ := now
  exact ⟨nodes, expands, member, fun dep needed => evolves.satisfied (met dep needed)⟩

theorem Eligible.since {run : RunRow} {node : DagNode} (now : Eligible cfg run node before)
    (moved : ReflTransGen (Evolves cfg) before after) : Eligible cfg run node after :=
  stays (Eligible cfg run node) (fun _ _ => Eligible.later) moved now

theorem Eligible.caused {run : RunRow} {node : DagNode} {db : Db} {job : NodeJob}
    (eligible : Eligible cfg run node db) (known : Known run db) (owner : job.runId = run.id)
    (named : job.nodeId = node.id) : Caused cfg db job := by
  obtain ⟨nodes, expands, member, met⟩ := eligible
  obtain ⟨now, present, same⟩ := known
  refine ⟨now, present, same.id.trans owner.symm, fun others again _ => ?_⟩
  rw [same.dagOf_eq, expands] at again
  cases again
  exact ⟨node, member, named.symm, fun dep needed => owner ▸ met dep needed⟩

theorem eligible_of_ready {db : Db} {run : RunRow} {nodes : List DagNode} {node : DagNode}
    (expands : dagOf cfg run = .ok nodes)
    (ready : node ∈ findReadyNodes nodes (db.jobsOf run.id)) : Eligible cfg run node db := by
  simp only [Dispatcher.findReadyNodes, List.mem_filter, Bool.and_eq_true, List.all_eq_true]
    at ready
  exact ⟨nodes, expands, ready.1, fun dep needed => satisfied_iff.mpr (ready.2.2 dep needed)⟩

end Stable

/-! ### Statements -/

section Statements

variable {cfg : Config} {db after : Db}

theorem evolves_claimNext {claim : NodeQueue.Claim} {queue : Queue} {capability : NodeJob → Bool}
    {rank : NodeJob → List Int} {job : NodeJob}
    (done : NodeQueue.claimNext claim queue capability rank db = .ok (some job, after)) :
    Evolves cfg db after := by
  obtain ⟨chosen, present, claimable, -, rfl⟩ := NodeQueue.claimNext_cases done
  simp only [NodeQueue.claimable, Bool.and_eq_true, beq_iff_eq] at claimable
  refine Evolves.of_updateJobs fun row member same => ?_
  have found : row = chosen := Db.eq_of_id member present (by simpa using same)
  refine .of_open rfl rfl ?_ (by simp [NodeQueue.taken])
  rw [found, claimable.1.1.1.1.2]
  rfl

/-- The shape of the `mark_*` statements. -/
theorem Evolves.of_mark {jobId : Nat} {change : NodeJob → NodeJob}
    {keeps : ∀ job, (change job).key = job.key} (inputs : ∀ job, (change job).inputs = job.inputs)
    (status : ∀ job, (change job).status ≠ .skipped) (clear : NotSkipped jobId db) :
    Evolves cfg db { db with
      jobs := db.jobs.update (fun job => job.id == jobId && !job.status.closed) change keeps } := by
  refine Evolves.of_updateJobs fun job member selected => ?_
  simp only [Bool.and_eq_true, beq_iff_eq, Bool.not_eq_true'] at selected
  refine .of_open (keeps job) (inputs job) ?_ (status job)
  have unskipped := clear.2 job member selected.1
  simp [JobStatus.final, selected.2, unskipped]

theorem evolves_requeueJobForRetry {jobId : Nat} {row : Option NodeJob}
    (done : NodeQueue.requeueJobForRetry jobId db = .ok (row, after)) : Evolves cfg db after := by
  cases done
  refine Evolves.of_updateJobs fun job _ selected => ?_
  simp only [Bool.and_eq_true, beq_iff_eq] at selected
  exact .of_open rfl rfl (by simp [selected.2, JobStatus.final, JobStatus.closed])
    (by simp [NodeQueue.released])

theorem evolves_reclaimExpiredLeases {rows : List NodeJob}
    (done : NodeQueue.reclaimExpiredLeases db = .ok (rows, after)) : Evolves cfg db after := by
  cases done
  refine Evolves.of_updateJobs fun job _ selected => ?_
  simp only [Bool.and_eq_true, beq_iff_eq] at selected
  unfold NodeQueue.reclaimed
  split
  · exact moved_released selected.1.1
  · exact .of_open rfl rfl (by simp [selected.1.1, JobStatus.final, JobStatus.closed]) (by simp)

end Statements

/-! ### Paths -/

/-- With any other paths in between, the program only evolves the store. -/
abbrev Sound {α : Type} (cfg : Config) (program : Program α) (db : Db) : Prop :=
  program.Safe (Evolves cfg) (fun _ _ => True) db

section Paths

variable {cfg : Config} {host : Host} {db : Db}

theorem safe_listJobs {site : Site} {runId : String} :
    (commit site (NodeQueue.listJobsForRun runId)).Safe (Evolves cfg)
      (fun rows found => rows = found.jobsOf runId) db := by
  refine Safe.commit fun found _ rows after done => ?_
  cases done
  exact ⟨.refl cfg _, rfl⟩

theorem safe_getRun {site : Site} {runId : String} :
    (commit site (RunStore.getRun runId)).Safe (Evolves cfg)
      (fun row found => row = found.run? runId) db := by
  refine Safe.commit fun found _ row after done => ?_
  cases done
  exact ⟨.refl cfg _, rfl⟩

theorem sound_commit {α : Type} {site : Site} {act : Txn α}
    (evolves : ∀ found, ReflTransGen (Evolves cfg) db found → ∀ value after,
      act found = .ok (value, after) → Evolves cfg found after) : Sound cfg (commit site act) db :=
  Safe.commit fun found moved value after done => ⟨evolves found moved value after done, trivial⟩

theorem sound_ofExcept {α : Type} (result : Except PyErr α) : Sound cfg (ofExcept result) db :=
  Safe.ofExcept fun _ _ => trivial

theorem safe_ofExcept {α : Type} (result : Except PyErr α) :
    (ofExcept result : Program α).Safe (Evolves cfg) (fun value _ => result = .ok value) db :=
  Safe.ofExcept fun _ same => same

theorem sound_readSiblings {site : Site} {run : RunRow} :
    Sound cfg (Dispatcher.readSiblings site run) db := by
  refine Safe.handle (safe_listJobs.weaken fun _ _ _ _ => trivial) fun _ _ _ => trivial

theorem evolves_enqueueNodeJob {new : NodeQueue.NewJob} {id : Nat} {after : Db}
    (cause : Caused cfg db (new.row db.nextJob db.clock))
    (done : NodeQueue.enqueueNodeJob new db = .ok (id, after)) : Evolves cfg db after := by
  unfold NodeQueue.enqueueNodeJob at done
  split at done
  · cases done
  · exact Evolves.of_insertJob (fun _ _ => rfl) cause done

variable {run : RunRow} {node : DagNode} {stale : List String}

theorem sound_enqueue (known : Known run db) (eligible : Eligible cfg run node db) :
    Sound cfg (Dispatcher.enqueue cfg host stale node run) db := by
  have insert : ∀ new : NodeQueue.NewJob, new.runId = run.id → new.nodeId = node.id →
      ∀ found, ReflTransGen (Evolves cfg) db found →
        Sound cfg (commit ⟨.insertQueued, run.id, stale⟩ (NodeQueue.enqueueNodeJob new)) found := by
    intro new owner named found moved
    refine sound_commit fun later ahead id after done => evolves_enqueueNodeJob ?_ done
    have path := moved.trans ahead
    exact (eligible.since path).caused (known.since path) owner named
  unfold Dispatcher.enqueue
  split
  · exact (insert _ rfl rfl db .refl).bind fun _ _ _ _ => trivial
  · refine sound_readSiblings.bind fun siblings found moved _ => ?_
    refine (sound_ofExcept _).bind fun context later ahead _ => ?_
    refine (sound_ofExcept _).bind fun resolved last onward _ => ?_
    have path := (moved.trans ahead).trans onward
    exact (insert _ rfl rfl last path).bind fun _ _ _ _ => trivial

theorem sound_dispatchNode {existing : List NodeJob} (known : Known run db)
    (eligible : Eligible cfg run node db) :
    Sound cfg (Dispatcher.dispatchNode cfg host stale run existing node) db := by
  refine (sound_ofExcept _).bind fun skip found moved _ => ?_
  have known' := known.since moved
  have eligible' := eligible.since moved
  split
  · refine Safe.bind (sound_commit fun later ahead id after done => ?_) fun _ _ _ _ => trivial
    refine Evolves.of_insertJob (fun _ _ => rfl) ?_ done
    exact (eligible'.since ahead).caused (known'.since ahead) rfl rfl
  · exact sound_enqueue known' eligible'

theorem sound_dispatchReady {existing : List NodeJob} {ready : List DagNode}
    (known : Known run db) (eligible : ∀ node ∈ ready, Eligible cfg run node db) :
    Sound cfg (Dispatcher.dispatchReady cfg host stale run existing ready) db := by
  induction ready generalizing db with
  | nil => trivial
  | cons node rest ih =>
    refine (sound_dispatchNode known (eligible node List.mem_cons_self)).bind
      fun _ found moved _ => ?_
    refine Safe.bind (ih (known.since moved) fun other member => ?_)
      fun _ _ _ _ => trivial
    exact (eligible other (List.mem_cons_of_mem _ member)).since moved

theorem dagOf_of_loaded {wf : Workflow} {nodes : List DagNode}
    (loaded : cfg.workflowLoader run.workflowName = .ok wf)
    (expands : nodesOf cfg wf run = .ok nodes) : dagOf cfg run = .ok nodes := by
  unfold Dispatcher.dagOf
  rw [loaded]
  exact expands

theorem sound_processReady {wf : Workflow} {fuel : Nat}
    (loaded : cfg.workflowLoader run.workflowName = .ok wf) (known : Known run db) :
    Sound cfg (Dispatcher.processReady cfg host stale wf run fuel) db := by
  induction fuel generalizing db with
  | zero => trivial
  | succ fuel ih =>
    refine safe_listJobs.bind fun existing found moved read => ?_
    subst read
    refine Safe.bind (safe_ofExcept _) fun nodes later ahead expands => ?_
    have known' := known.since (moved.trans ahead)
    dsimp only
    split
    · trivial
    · refine Safe.bind (sound_dispatchReady known' fun node member => ?_)
        fun inserted last onward _ => ?_
      · have ready := (List.perm_insertionSort _ _).mem_iff.mp member
        exact (eligible_of_ready (dagOf_of_loaded loaded expands) ready).since ahead
      · exact Safe.bind (ih (known'.since onward))
          fun _ _ _ _ => trivial

/-- `update_run` to a status other than `completed`. -/
theorem evolves_updateRun {runId : String} {fields : RunStore.RunUpdate} {after : Db}
    (unfinished : fields.status ≠ .completed)
    (done : RunStore.updateRun runId fields db = .ok ((), after)) : Evolves cfg db after := by
  cases done
  exact Evolves.of_updateRuns (fun run => ⟨rfl, rfl, rfl, rfl, rfl⟩)
    fun run _ _ completed => absurd completed unfinished

/-- `update_run` to `completed` on the strength of an earlier completion check. -/
theorem evolves_completeRun {runId : String} {fields : RunStore.RunUpdate} {after : Db}
    (named : run.id = runId) (known : Known run db) (finished : Finished cfg db run)
    (done : RunStore.updateRun runId fields db = .ok ((), after)) : Evolves cfg db after := by
  cases done
  refine Evolves.of_updateRuns (fun run => ⟨rfl, rfl, rfl, rfl, rfl⟩)
    fun row member selected _ => .inr ?_
  obtain ⟨now, present, same⟩ := known
  have unique : row = now := by
    refine db.runs.eq_of_clash Eq.symm member present ?_
    rw [same.id, named]
    simpa using selected
  exact unique ▸ finished.of_same same

theorem Finished.since {before after : Db} (finished : Finished cfg before run)
    (moved : ReflTransGen (Evolves cfg) before after) : Finished cfg after run :=
  stays (fun db => Finished cfg db run) (fun _ _ evolves => evolves.finished) moved finished

theorem sound_startRun {runId : String} {fuel : Nat} :
    Sound cfg (Dispatcher.startRun cfg host stale runId fuel) db := by
  refine safe_getRun.bind fun row found moved read => ?_
  cases row with
  | none => trivial
  | some run =>
    have known := Known.of_run? read.symm
    refine Safe.bind (safe_ofExcept _) fun wf later ahead loaded => ?_
    cases Dispatcher.assertGpuNodesDeclareModel cfg wf run with
    | ok _ => exact sound_processReady loaded (known.since ahead)
    | error error =>
      dsimp only
      split
      · refine Safe.bind (sound_commit fun _ _ _ after done => ?_) fun _ _ _ _ => trivial
        exact evolves_updateRun (by simp) done
      · trivial

theorem evolves_setInputSpec {runId nodeId : String} {spec : Option Json} {after : Db}
    (done : NodeQueue.setInputSpec runId nodeId spec db = .ok ((), after)) :
    Evolves cfg db after := by
  cases done
  exact Evolves.of_updateJobs fun job _ _ => .of_same_status rfl rfl rfl ⟨rfl, rfl, rfl⟩

theorem sound_bumpInputSpec {runId target : String} {fields : Time → List (String × Option Json)} :
    Sound cfg (Dispatcher.bumpInputSpec runId target fields) db := by
  unfold Dispatcher.bumpInputSpec
  split
  · trivial
  · refine safe_listJobs.bind fun existing found moved _ => ?_
    split
    · exact sound_commit fun _ _ _ after done => evolves_setInputSpec done
    · trivial

theorem sound_finishPatchJob {job : NodeJob} {fields : Dict} :
    Sound cfg (Dispatcher.finishPatchJob cfg host run job fields) db := by
  refine safe_listJobs.bind fun existing found moved _ => ?_
  exact (sound_ofExcept _).bind fun _ _ _ _ => sound_bumpInputSpec

theorem sound_advanceRun {runId : String} {fuel : Nat} (known : Known run db)
    (named : run.id = runId) : Sound cfg (Dispatcher.advanceRun cfg host runId run fuel) db := by
  refine Safe.bind (safe_ofExcept _) fun wf found moved loaded => ?_
  refine Safe.bind (sound_processReady loaded (known.since moved)) fun _ later ahead _ => ?_
  refine safe_listJobs.bind fun existing last onward read => ?_
  subst read named
  refine Safe.bind (safe_ofExcept _) fun nodes final further expands => ?_
  have closes : Sound cfg
      (Dispatcher.completeIfSatisfied run.id nodes (last.jobsOf run.id)) final := by
    unfold Dispatcher.completeIfSatisfied
    split
    · rename_i satisfied
      have finished := finished_of_allSatisfied (dagOf_of_loaded loaded expands) satisfied
      have path := ((moved.trans ahead).trans onward).trans further
      refine sound_commit fun now since _ after done => ?_
      exact evolves_completeRun rfl (known.since (path.trans since))
        (finished.since (further.trans since)) done
    · trivial
  exact closes.bind fun _ _ _ _ => trivial

theorem sound_onNodeCompleted {runId nodeId : String} {fuel : Nat} :
    Sound cfg (Dispatcher.onNodeCompleted cfg host runId nodeId fuel) db := by
  refine safe_getRun.bind fun row found moved read => ?_
  cases row with
  | none => trivial
  | some run =>
    have known := Known.of_run? read.symm
    dsimp only
    split
    · trivial
    · refine safe_listJobs.bind fun existing later ahead _ => ?_
      split
      · exact sound_finishPatchJob.bind fun _ _ _ _ => trivial
      · exact sound_advanceRun (known.since ahead) (Db.run?_mem read.symm).2

theorem evolves_cancelQueuedJobsForRun {runId : String} {after : Db}
    (done : NodeQueue.cancelQueuedJobsForRun runId db = .ok ((), after)) : Evolves cfg db after := by
  cases done
  refine Evolves.of_updateJobs fun job _ selected => ?_
  simp only [Bool.and_eq_true, beq_iff_eq] at selected
  exact .of_open rfl rfl (by simp [selected.2, JobStatus.final, JobStatus.closed]) (by simp)

theorem sound_onNodeFailed {runId nodeId : String} :
    Sound cfg (Dispatcher.onNodeFailed cfg runId nodeId) db := by
  refine safe_getRun.bind fun row found moved _ => ?_
  split
  · trivial
  · refine safe_listJobs.bind fun existing later ahead _ => ?_
    split
    · unfold Dispatcher.flagPatchError
      exact sound_bumpInputSpec
    · refine Safe.bind (sound_commit fun _ _ _ after done => ?_) fun _ _ _ _ => ?_
      · exact evolves_cancelQueuedJobsForRun done
      · exact sound_commit fun _ _ _ after done => evolves_updateRun (by simp) done

theorem sound_onNodeAwaitingInput {runId nodeId : String} :
    Sound cfg (Dispatcher.onNodeAwaitingInput cfg host runId nodeId) db := by
  refine safe_getRun.bind fun row found moved _ => ?_
  cases row with
  | none => trivial
  | some run =>
    dsimp only
    split
    · trivial
    · refine (sound_ofExcept _).bind fun wf _ _ _ => ?_
      split
      · trivial
      · refine sound_readSiblings.bind fun siblings _ _ _ => ?_
        refine (sound_ofExcept _).bind fun spec _ _ _ => ?_
        refine Safe.handle (sound_commit fun _ _ _ after done => ?_) fun _ _ _ => trivial
        exact evolves_setInputSpec done

theorem sound_setRunning {runId : String} : Sound cfg (Dispatcher.setRunning runId) db :=
  sound_commit fun _ _ _ after done => evolves_updateRun (by simp) done

theorem sound_requeueBlocked {runId : String} {wf : Workflow} {fuel : Nat}
    (loaded : cfg.workflowLoader run.workflowName = .ok wf) (known : Known run db) :
    Sound cfg (Dispatcher.requeueBlocked cfg host runId wf run fuel) db := by
  refine Safe.bind (sound_commit fun _ _ _ after done => Evolves.of_deleteNonTerminal done)
    fun dropped found moved _ => ?_
  have again : Sound cfg (Dispatcher.expandDropped cfg host runId wf run fuel dropped) found := by
    unfold Dispatcher.expandDropped
    split
    · trivial
    · exact sound_processReady loaded (known.since moved)
  refine again.bind fun expanded later ahead _ => ?_
  split
  · exact sound_setRunning.bind fun _ _ _ _ => trivial
  · refine Safe.bind (sound_commit fun _ _ _ after done => ?_) fun _ _ _ _ => trivial
    exact evolves_updateRun (by simp) done

theorem sound_reconcileRun {runId : String} {fuel : Nat} :
    Sound cfg (Dispatcher.reconcileRun cfg host runId fuel) db := by
  refine safe_getRun.bind fun row found moved read => ?_
  cases row with
  | none => trivial
  | some run =>
    have known := Known.of_run? read.symm
    have named := (Db.run?_mem read.symm).2
    dsimp only
    split
    · trivial
    · refine safe_listJobs.bind fun existing later ahead jobs => ?_
      subst jobs
      split
      · trivial
      · refine Safe.bind (safe_ofExcept _) fun wf first onward loaded => ?_
        refine Safe.bind (safe_ofExcept _) fun nodes second further expands => ?_
        have path := (ahead.trans onward).trans further
        split
        · rename_i satisfied
          rw [← named] at satisfied
          have finished := finished_of_allSatisfied (dagOf_of_loaded loaded expands) satisfied
          refine Safe.bind (sound_commit fun now since _ after done => ?_) fun _ _ _ _ => trivial
          exact evolves_completeRun named (known.since (path.trans since))
            (finished.since ((onward.trans further).trans since)) done
        · refine Safe.bind (sound_processReady loaded (known.since path))
            fun expanded last since _ => ?_
          split
          · exact sound_setRunning.bind fun _ _ _ _ => trivial
          · exact sound_requeueBlocked loaded (known.since (path.trans since))

end Paths

end QueueWorkflows
