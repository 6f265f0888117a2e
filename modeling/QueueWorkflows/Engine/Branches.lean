import QueueWorkflows.Engine.Entrances
import QueueWorkflows.Engine.ExactlyOnce
import QueueWorkflows.Engine.Reconciler
import QueueWorkflows.Engine.StepGraph

/-! Whole branches. A step's `skip_if` is handed down to the nodes of its pipeline, and
each is evaluated when its node is found ready, against the context as it is by then. The
branch is skipped as one where these evaluations come out alike. -/

namespace QueueWorkflows

open Relation (ReflTransGen)
open Transaction (Prog Pool Reach Terms follow)
open Transaction.Prog (Always Outline commit ofExcept stays)
open Dispatcher (dagOf nodesOf findReadyNodes shouldSkipNode)

/-! ### The columns an expansion reads -/

/-- The columns of a run that its expansion reads. -/
structure SameExpansion (old new : RunRow) : Prop where
  id : new.id = old.id
  workflowName : new.workflowName = old.workflowName
  outDir : new.outDir = old.outDir
  context : new.context = old.context

theorem SameExpansion.refl (run : RunRow) : SameExpansion run run := ⟨rfl, rfl, rfl, rfl⟩

theorem SameExpansion.trans {first second third : RunRow} (early : SameExpansion first second)
    (late : SameExpansion second third) : SameExpansion first third :=
  ⟨late.id.trans early.id, late.workflowName.trans early.workflowName,
    late.outDir.trans early.outDir, late.context.trans early.context⟩

/-- No run disappears, and none changes in these columns. -/
def RunsKept (db after : Db) : Prop :=
  ∀ run ∈ db.runs.rows, ∃ now ∈ after.runs.rows, SameExpansion run now

section Kept

variable {cfg : Config} {db after : Db} {run : RunRow} {node : DagNode} {existing : List NodeJob}

theorem SameExpansion.dagOf_eq {old new : RunRow} (same : SameExpansion old new) :
    dagOf cfg new = dagOf cfg old := by
  unfold Dispatcher.dagOf Dispatcher.nodesOf
  rw [same.workflowName, same.outDir]

theorem SameExpansion.shouldSkipNode_eq {old new : RunRow} (same : SameExpansion old new) :
    shouldSkipNode cfg node new existing = shouldSkipNode cfg node old existing := by
  unfold Dispatcher.shouldSkipNode Dispatcher.evalSkipContext
  rw [same.context]

theorem runsKept_of_same (runs : after.runs = db.runs) : RunsKept db after :=
  fun run member => ⟨run, runs ▸ member, .refl run⟩

theorem runsKept_update {selects : RunRow → Bool} {change : RunRow → RunRow}
    (rows : after.runs.rows = db.runs.rows.map fun run => if selects run then change run else run)
    (same : ∀ run, SameExpansion run (change run)) : RunsKept db after := by
  intro run member
  refine ⟨if selects run then change run else run, rows ▸ List.mem_map_of_mem member, ?_⟩
  split
  · exact same run
  · exact .refl run

theorem runsKept_frame : Frame (fun _ => True) RunsKept where
  refl _ := runsKept_of_same rfl
  insert _ _ _ _ _ := runsKept_of_same rfl
  update _ _ _ _ _ := runsKept_of_same rfl
  submissions _ _ := runsKept_of_same rfl
  delete _ _ := runsKept_of_same rfl
  updateRun _ _ _ _ _ done := by
    cases done
    exact runsKept_update rfl fun _ => ⟨rfl, rfl, rfl, rfl⟩

theorem Statement.runsKept (statement : Statement cfg db after) : RunsKept db after := by
  cases statement with
  | insertRun run done =>
    simp only [QueueWorkflows.insertRun] at done
    split at done
    · rename_i runs inserted
      cases done
      intro old member
      refine ⟨old, ?_, .refl old⟩
      dsimp only
      rw [Relational.Table.rows_insert? inserted]
      exact List.mem_append_left _ member
    · cases done
  | enqueuePatch new outside id done => exact runsKept_frame.enqueueNodeJob done
  | cancelRun | reenqueueRuns =>
    rename_i done
    cases done
    exact runsKept_update rfl fun _ => ⟨rfl, rfl, rfl, rfl⟩
  | _ =>
    rename_i done
    cases done
    exact runsKept_of_same rfl

theorem Claims.runsKept {job : NodeJob} (claims : Claims db after job) : RunsKept db after := by
  obtain ⟨claim, queue, capability, rank, done⟩ := claims
  obtain ⟨_, _, _, _, rfl⟩ := NodeQueue.claimNext_cases done
  exact runsKept_of_same rfl

theorem RunsKept.trans {final : Db} (early : RunsKept db after) (late : RunsKept after final) :
    RunsKept db final := by
  intro run member
  obtain ⟨middle, present, same⟩ := early run member
  obtain ⟨now, last, still⟩ := late middle present
  exact ⟨now, last, same.trans still⟩

theorem runsKept_settleEvent (one : NodePool.Handled) :
    RunsKept db (NodePool.settleEvent db one) := by
  cases one with
  | succeeded event => exact runsKept_of_same rfl
  | raised event error =>
    dsimp only [NodePool.settleEvent]
    split
    · exact runsKept_update rfl fun _ => ⟨rfl, rfl, rfl, rfl⟩
    · exact runsKept_of_same rfl

theorem runsKept_foldl (db : Db) (handled : List NodePool.Handled) :
    RunsKept db (handled.foldl NodePool.settleEvent db) := by
  induction handled generalizing db with
  | nil => exact runsKept_of_same rfl
  | cons one rest ih => exact (runsKept_settleEvent one).trans (ih _)

theorem starts_runsKept {sys : Sys} {label : Label} {role : Role} {prog : Program Unit}
    (starts : Starts cfg sys label db role prog) : prog.Always RunsKept := by
  have frame := runsKept_frame
  have works {job : NodeJob} {program : Program Unit} (always : program.Always (WorkerStep job)) :
      program.Always RunsKept := always.weaken fun _ _ step => runsKept_of_same step.1
  cases starts with
  | restart => exact frame.restartRun trivial
  | expand => exact frame.expandRuns fun _ _ => trivial
  | drain => exact frame.drainDispatchEvents (fun _ _ => trivial) runsKept_foldl
  | sweep => exact frame.sweepStuckRuns fun _ _ => trivial
  | poll => exact frame.processRows fun _ _ => trivial
  | claimCpu => exact works (workerStep_frame _).runNode
  | claimGpu => exact works (workerStep_frame _).runNode
  | redeliver => exact works (workerStep_frame _).runNode
  | trip => exact works (workerStep_frame _).watchdogTrip

theorem step_runsKept {ok : Sys → Label → Bool} {sys last : Sys} {label : Label}
    (reached : Reach (step cfg) ok Sys.empty sys) (stepped : step cfg sys label = some last) :
    RunsKept sys.store last.store := by
  rcases step_moves (G := fun _ => RunsKept) starts_runsKept reached stepped with
    same | statement | ⟨job, claims⟩ | ⟨index, path, -, -, moved⟩
  · exact same ▸ runsKept_of_same rfl
  · exact statement.runsKept
  · exact claims.runsKept
  · exact moved

end Kept

/-! ### Outlines -/

/-- A row of the branch is a skip marker if and only if the branch is skipped. -/
def Agreed (runId : String) (branch : List String) (value : Bool) (job : NodeJob) : Prop :=
  job.runId = runId → job.nodeId ∈ branch → (job.status = .skipped ↔ value = true)

/-- A row that is new agrees. -/
def AddsAgreed (runId : String) (branch : List String) (value : Bool) (db after : Db) : Prop :=
  ∀ job ∈ after.jobs.rows, (∃ old ∈ db.jobs.rows, old.key = job.key) ∨
    Agreed runId branch value job

/-- On this reading of the job table, `skip_if` of every ready node of the branch has the
value, or raises. -/
def agrees (cfg : Config) (run : RunRow) (branch : List String) (value : Bool)
    (existing : List NodeJob) : Bool :=
  match dagOf cfg run with
  | .error _ => true
  | .ok nodes => (findReadyNodes nodes existing).all fun node => !branch.contains node.id ||
      match shouldSkipNode cfg node run existing with
      | .ok skip => skip == value
      | .error _ => true

/-- The store has the run whose row was read. -/
def HasRun (run : RunRow) (db : Db) : Prop :=
  ∃ now ∈ db.runs.rows, SameExpansion run now

/-- Every reading at which nodes of the branch are ready agrees with the value. -/
def branchTerms (cfg : Config) (runId : String) (branch : List String) (value : Bool) :
    Terms Db Site where
  stable _ held := ∀ db after, RunsKept db after → held db → held after
  given site db after := RunsKept db after ∧ (site.place = .readyJobs → site.run = runId →
    ∀ run, db.run? runId = some run → agrees cfg run branch value (db.jobsOf runId) = true)
  safe _ _ := True
  good := AddsAgreed runId branch value
  idle _ _ _ _ _ := trivial
  void _ _ _ _ impossible := impossible

section Outlines

variable {cfg : Config} {host : Host} {runId : String} {branch : List String} {value : Bool}
  {db after : Db} {run : RunRow} {node : DagNode} {stale : List String} {existing : List NodeJob}

theorem HasRun.later (kept : RunsKept db after) (known : HasRun run db) : HasRun run after := by
  obtain ⟨now, member, same⟩ := known
  obtain ⟨next, present, still⟩ := kept now member
  exact ⟨next, present, same.trans still⟩

theorem addsAgreed_of_old (old : ∀ job ∈ after.jobs.rows, ∃ row ∈ db.jobs.rows,
    row.key = job.key) : AddsAgreed runId branch value db after :=
  fun job member => .inl (old job member)

theorem addsAgreed_update {selects : NodeJob → Bool} {change : NodeJob → NodeJob}
    {keeps : ∀ job, (change job).key = job.key} : AddsAgreed runId branch value db
      { db with jobs := db.jobs.update selects change keeps } := by
  refine addsAgreed_of_old fun job member => ?_
  obtain ⟨old, present, rfl⟩ := List.mem_map.mp member
  refine ⟨old, present, ?_⟩
  split
  · exact (keeps old).symm
  · rfl

theorem addsAgreed_of_same (jobs : after.jobs = db.jobs) : AddsAgreed runId branch value db after :=
  addsAgreed_of_old fun job member => ⟨job, jobs ▸ member, rfl⟩

theorem addsAgreed_insert {job : Nat → Time → NodeJob} {id : Nat}
    (agreed : ∀ id now, Agreed runId branch value (job id now))
    (done : NodeQueue.insertJob job db = .ok (id, after)) :
    AddsAgreed runId branch value db after := by
  obtain ⟨-, rows, -⟩ := insertJob_cases done
  intro row member
  rw [rows] at member
  rcases List.mem_append.mp member with old | last
  · exact .inl ⟨row, old, rfl⟩
  · exact .inr (List.mem_singleton.mp last ▸ agreed _ _)

theorem tolerates_branch : Tolerates (branchTerms cfg runId branch value) HasRun where
  updates := {
    refl := fun _ => addsAgreed_of_same rfl
    update := fun _ _ _ _ _ => addsAgreed_update
    submissions := fun _ _ => addsAgreed_of_same rfl
    updateRun := by
      intro _ _ _ _ _ done
      cases done
      exact addsAgreed_of_same rfl }
  deletes _ _ := addsAgreed_of_old fun job member => ⟨job, List.mem_of_mem_filter member, rfl⟩
  settles db handled := addsAgreed_of_same (bookkept_foldl (.refl db) handled).jobs
  harmless _ _ := trivial
  holds _ _ _ _ kept := HasRun.later kept
  lasts _ _ _ _ given := HasRun.later given.1
  reads _ _ run found := ⟨run, (Db.run?_mem found).1, .refl run⟩

/-- One ready node, whose evaluation has the value if the node is of the branch. -/
theorem agreed_dispatchNode (agreed : ∀ skip, shouldSkipNode cfg node run existing = .ok skip →
      run.id = runId → node.id ∈ branch → skip = value) :
    (Dispatcher.dispatchNode cfg host stale run existing node).Always
      (AddsAgreed runId branch value) := by
  unfold Dispatcher.dispatchNode
  cases evaluated : shouldSkipNode cfg node run existing with
  | error error =>
    simp only [Prog.ofExcept_error, Prog.bind_raise]
    trivial
  | ok skip =>
    simp only [Prog.ofExcept_ok, Prog.bind_pure']
    cases skip with
    | true =>
      refine Always.bind (Always.commit fun db id after done => ?_) fun _ => trivial
      refine addsAgreed_insert (fun id now mine inside => ?_) done
      exact iff_of_true rfl (agreed true evaluated mine inside).symm
    | false =>
      have queued (new : NodeQueue.NewJob) (owner : new.runId = run.id)
          (named : new.nodeId = node.id) :
          (commit ⟨.insertQueued, run.id, stale⟩ (NodeQueue.enqueueNodeJob new) :
            Program Nat).Always (AddsAgreed runId branch value) := by
        refine Always.commit fun db id after done => ?_
        unfold NodeQueue.enqueueNodeJob at done
        split at done
        · cases done
        · refine addsAgreed_insert (fun id now mine inside => ?_) done
          have kept := agreed false evaluated (owner ▸ mine) (named ▸ inside)
          exact iff_of_false nofun (by simp [← kept])
      have updates := (tolerates_branch : Tolerates (branchTerms cfg runId branch value) _).updates
      simp only [Bool.false_eq_true, if_false]
      unfold Dispatcher.enqueue
      split
      · exact (queued _ rfl rfl).bind fun _ => trivial
      · refine updates.readSiblings.bind fun siblings => ?_
        refine (Always.ofExcept _).bind fun context => (Always.ofExcept _).bind fun resolved => ?_
        exact (queued _ rfl rfl).bind fun _ => trivial

theorem agreed_dispatchReady {ready : List DagNode}
    (agreed : ∀ node ∈ ready, ∀ skip, shouldSkipNode cfg node run existing = .ok skip →
      run.id = runId → node.id ∈ branch → skip = value) :
    (Dispatcher.dispatchReady cfg host stale run existing ready).Always
      (AddsAgreed runId branch value) := by
  induction ready with
  | nil => trivial
  | cons node rest ih =>
    refine (agreed_dispatchNode (agreed node List.mem_cons_self)).bind fun _ => ?_
    exact (ih fun other member => agreed other (List.mem_cons_of_mem _ member)).bind fun _ => trivial

/-- What a reading that agrees says of the nodes it finds ready. -/
theorem agreed_of_agrees {nodes : List DagNode} {now : RunRow} (same : SameExpansion run now)
    (expands : dagOf cfg run = .ok nodes) (agreement : agrees cfg now branch value existing = true) :
    ∀ node ∈ findReadyNodes nodes existing, ∀ skip,
      shouldSkipNode cfg node run existing = .ok skip → node.id ∈ branch → skip = value := by
  intro node ready skip evaluated inside
  unfold agrees at agreement
  rw [same.dagOf_eq, expands] at agreement
  have mine := List.all_eq_true.mp agreement node ready
  rw [same.shouldSkipNode_eq, evaluated] at mine
  simpa [inside] using mine

theorem entered_branch : Entered cfg (branchTerms cfg runId branch value) HasRun where
  toTolerates := tolerates_branch
  expands host stale wf run fuel loaded := by
    have tolerates : Tolerates (branchTerms cfg runId branch value) HasRun := tolerates_branch
    induction fuel with
    | zero => trivial
    | succ fuel ih =>
      refine Outline.commit_bind (tolerates.holds _ run) (fun _ _ => trivial) ?_
        fun _ _ known => known
      intro db existing after known given done
      cases done
      refine ⟨tolerates.updates.refl db, HasRun run, known, ?_⟩
      refine Outline.ofExcept_bind (fun nodes expands => ?_) fun _ _ known => known
      dsimp only
      split
      · exact fun _ known => known
      · have agreed : ∀ node ∈ findReadyNodes nodes (db.jobsOf run.id), ∀ skip,
            shouldSkipNode cfg node run (db.jobsOf run.id) = .ok skip →
              run.id = runId → node.id ∈ branch → skip = value := by
          intro node ready skip evaluated mine inside
          obtain ⟨now, member, same⟩ := known
          have found : db.run? runId = some now := by
            rw [← mine, ← same.id]
            exact Db.run?_of_mem member
          have agreement := given.2 rfl mine now found
          rw [← mine] at agreement
          exact agreed_of_agrees same (dagOf_of_loaded loaded expands) agreement node ready skip
            evaluated inside
        have dispatches : (Dispatcher.dispatchReady cfg host stale run (db.jobsOf run.id)
            (Dispatcher.byModel (findReadyNodes nodes (db.jobsOf run.id)))).Always
              (AddsAgreed runId branch value) :=
          agreed_dispatchReady fun node member =>
            agreed node ((List.perm_insertionSort _ _).mem_iff.mp member)
        refine Outline.bind (tolerates.keeps dispatches) (fun inserted => ?_) fun _ _ known => known
        exact ih.bind (fun _ _ known => known) fun _ _ known => known

end Outlines

/-! ### The system -/

section System

variable {cfg : Config} {runId : String} {branch : List String} {value : Bool} {sys after : Sys}
  {label : Label}

/-- Whenever an expansion of the run is about to list its ready nodes, `skip_if` of those of
the branch has the value, or raises. -/
def steady (cfg : Config) (runId : String) (branch : List String) (value : Bool) (sys : Sys)
    (label : Label) : Bool :=
  ((label.mover.bind fun index => sys.actors[index]?).bind fun path => path.prog.site?).all
    fun site => site.place != .readyJobs || site.run != runId ||
      (sys.store.run? runId).all fun run =>
        agrees cfg run branch value (sys.store.jobsOf runId)

/-- The DAG of the run has the branch. -/
def Fits (cfg : Config) (runId : String) (branch : List String) (db : Db) : Prop :=
  ∀ run, db.run? runId = some run → ∃ nodes, dagOf cfg run = .ok nodes ∧
    ∀ id ∈ branch, ∃ node ∈ nodes, node.id = id

theorem Fits.earlier {db after : Db} (fits : Fits cfg runId branch after)
    (kept : RunsKept db after) : Fits cfg runId branch db := by
  intro run found
  obtain ⟨member, rfl⟩ := Db.run?_mem found
  obtain ⟨now, present, same⟩ := kept run member
  obtain ⟨nodes, expands, inside⟩ := fits now (same.id ▸ Db.run?_of_mem present)
  exact ⟨nodes, same.dagOf_eq.symm.trans expands, inside⟩

/-- The row of this id keeps its cell, and stays a skip marker or stays none. -/
def KeepsMark (job : NodeJob) (db : Db) : Prop :=
  job.id < db.nextJob ∧ ∀ row ∈ db.jobs.rows, row.id = job.id →
    row.key = job.key ∧ (row.status = .skipped ↔ job.status = .skipped)

theorem KeepsMark.later {job : NodeJob} {db after : Db} (evolves : Evolves cfg db after)
    (now : KeepsMark job db) : KeepsMark job after := by
  obtain ⟨used, marked⟩ := now
  refine ⟨used.trans_le evolves.sequence, fun row member same => ?_⟩
  rcases evolves.rows row member with ⟨old, present, moved⟩ | ⟨fresh, -, -⟩
  · obtain ⟨key, mark⟩ := marked old present (moved.id.symm.trans same)
    refine ⟨moved.key.trans key, Iff.trans ⟨moved.unskipped, fun skipped => ?_⟩ mark⟩
    rw [(moved.settled (by simp [skipped, JobStatus.final])).1, skipped]
  · omega

/-- Rows and paths agree with the value. -/
structure Whole (cfg : Config) (runId : String) (branch : List String) (value : Bool)
    (sys : Sys) : Prop where
  rows : ∀ job ∈ sys.store.jobs.rows, Agreed runId branch value job
  paths : Outlines (branchTerms cfg runId branch value) Role.expands sys

theorem Statement.addsAgreed {db after : Db} (fits : Fits cfg runId branch db)
    (statement : Statement cfg db after) : AddsAgreed runId branch value db after := by
  cases statement with
  | insertRun run done =>
    simp only [QueueWorkflows.insertRun] at done
    split at done <;> cases done
    exact addsAgreed_of_same rfl
  | enqueuePatch new outside id done =>
    unfold NodeQueue.enqueueNodeJob at done
    split at done
    · cases done
    · obtain ⟨⟨run, stored, owner⟩, -⟩ := insertJob_cases done
      refine addsAgreed_insert (fun id now mine inside => ?_) done
      have owner : run.id = new.runId := owner
      have mine : new.runId = runId := mine
      have found : db.run? new.runId = some run := owner ▸ Db.run?_of_mem stored
      obtain ⟨nodes, expands, listed⟩ := fits run (mine ▸ found)
      obtain ⟨node, member, named⟩ := listed new.nodeId inside
      simp only [outsideDag, found, Option.all_some, expands, Bool.not_eq_true',
        List.any_eq_false, beq_iff_eq] at outside
      exact absurd named (outside node member)
  | cancelQueued | prioritize | reclaimExpired | reclaimAllRunning | cancelOrphaned | renew |
    requeueForWorker =>
    rename_i done
    cases done
    exact addsAgreed_update
  | _ =>
    rename_i done
    cases done
    exact addsAgreed_of_same rfl

theorem Claims.addsAgreed {db after : Db} {job : NodeJob} (claims : Claims db after job) :
    AddsAgreed runId branch value db after := by
  obtain ⟨claim, queue, capability, rank, done⟩ := claims
  obtain ⟨_, _, _, _, rfl⟩ := NodeQueue.claimNext_cases done
  exact addsAgreed_update

theorem given_of_steady {index : Nat} {path : Path} {site : Site}
    (kept : RunsKept sys.store after.store) (allowed : steady cfg runId branch value sys label = true)
    (found : sys.actors[index]? = some path) (own : label.mover = some index)
    (stands : path.prog.site? = some site) :
    (branchTerms cfg runId branch value).given site sys.store after.store := by
  refine ⟨kept, fun lists mine run stored => ?_⟩
  simpa [steady, own, found, stands, lists, mine, stored] using allowed

theorem step_addsAgreed {ok : Sys → Label → Bool} (reached : Reach (step cfg) ok Sys.empty sys)
    (fits : Fits cfg runId branch sys.store) (whole : Whole cfg runId branch value sys)
    (allowed : steady cfg runId branch value sys label = true)
    (stepped : step cfg sys label = some after) :
    AddsAgreed runId branch value sys.store after.store := by
  have kept := step_runsKept reached stepped
  rcases step_cases stepped with ⟨statement, -⟩ | ⟨role, prog, starts, -⟩ |
    ⟨index, rfl, advanced⟩ | ⟨index, error, -, failed⟩ | ⟨index, -, rfl⟩
  · exact statement.addsAgreed fits
  · rcases starts.store with same | statement | ⟨job, claims⟩
    · exact addsAgreed_of_same (congrArg Db.jobs same)
    · exact statement.addsAgreed fits
    · exact claims.addsAgreed
  · obtain ⟨path, rest, found, -, -⟩ := Pool.advance_cases advanced
    have works (job : NodeJob) (role : path.role = .execution job ∨ path.role = .trip job) :
        AddsAgreed runId branch value sys.store after.store := by
      obtain ⟨⟨change, write⟩, -⟩ := worker_advance reached found role stepped
      refine addsAgreed_of_old fun row member => ?_
      rw [write.rows] at member
      obtain ⟨old, present, rfl⟩ := List.mem_map.mp member
      refine ⟨old, present, ?_⟩
      split
      · exact (write.keys old).symm
      · rfl
    have expands (covered : path.role.expands) :
        AddsAgreed runId branch value sys.store after.store := by
      rcases whole.paths.good found covered
        (fun site stands => given_of_steady kept allowed found rfl stands) stepped with same | adds
      · exact addsAgreed_of_same (congrArg Db.jobs same)
      · exact adds
    cases role : path.role with
    | execution job => exact works job (.inl role)
    | trip job => exact works job (.inr role)
    | _ => exact expands (by rw [role]; trivial)
  · obtain ⟨_, _, _, _, same, _⟩ := Pool.blip_cases failed
    exact addsAgreed_of_same (congrArg Db.jobs same)
  · exact addsAgreed_of_same rfl

theorem step_whole {ok : Sys → Label → Bool} (reached : Reach (step cfg) ok Sys.empty sys)
    (fits : Fits cfg runId branch sys.store) (whole : Whole cfg runId branch value sys)
    (allowed : steady cfg runId branch value sys label = true)
    (stepped : step cfg sys label = some after) : Whole cfg runId branch value after := by
  have wellformed := (reach_wellformed wellformed_empty reached).2
  have evolves := (step_wellformed wellformed stepped).1
  have kept := step_runsKept reached stepped
  constructor
  · intro job member
    rcases step_addsAgreed reached fits whole allowed stepped job member with
      ⟨old, present, key⟩ | agreed
    · have marked : KeepsMark old sys.store :=
        ⟨wellformed.coherent.bounded old present, fun row there same =>
          Db.eq_of_id there present same ▸ ⟨rfl, Iff.rfl⟩⟩
      have mark := ((stays (KeepsMark old) (fun _ _ => KeepsMark.later) evolves marked).2 job member
        (congrArg Prod.fst key).symm).2
      intro mine inside
      have run : old.runId = job.runId := congrArg (·.2.1) key
      have node : old.nodeId = job.nodeId := congrArg (·.2.2) key
      exact mark.trans (whole.rows old present (run.trans mine) (node ▸ inside))
    · exact agreed
  · refine step_outlines whole.paths ?_ ?_ ?_ stepped
    · exact fun _ _ _ _ _ _ _ held stable holds => stable _ _ kept holds
    · exact fun index path found own _ site stands =>
        given_of_steady kept allowed found own stands
    · exact fun role prog starts covered => entered_branch.starts starts covered

theorem reach_whole (reached : Reach (step cfg) (steady cfg runId branch value) Sys.empty sys)
    (fits : Fits cfg runId branch sys.store) : Whole cfg runId branch value sys := by
  induction reached with
  | start =>
    constructor
    all_goals exact fun _ member => nomatch member
  | next label reached allowed stepped ih =>
    have earlier := fits.earlier (step_runsKept reached stepped)
    exact step_whole reached earlier (ih earlier) allowed stepped

end System

/-! ### The nodes of a step -/

section Step

variable {cfg : Config} {workflow : Workflow} {run : RunRow} {stage : WorkflowStep}
  {steps : List WorkflowStep} {leaves : List (String × List String)} {outDir : Option String}
  {nodes dag : List DagNode}

/-- No node of the step's pipeline has a `skip_if` of its own. -/
def PlainNodes (cfg : Config) (stage : WorkflowStep) : Prop :=
  ∀ schema, cfg.pipelineSchemaLoader stage.pipeline = .ok schema →
    ∀ sn ∈ schema, sn.skipIf.filter Json.truthy = none

theorem skipIf_of_plain (plain : PlainNodes cfg stage)
    (expanded : Dispatcher.expandStep cfg leaves outDir stage = .ok nodes) :
    ∀ node ∈ nodes, node.skipIf = stage.skipIf := by
  intro node member
  unfold Dispatcher.expandStep at expanded
  cases kind : stage.kind with
  | input =>
    rw [kind] at expanded
    cases expanded
    rw [List.mem_singleton.mp member]
  | other =>
    rw [kind] at expanded
    cases expanded
    cases member
  | pipeline =>
    rw [kind] at expanded
    cases loaded : cfg.pipelineSchemaLoader stage.pipeline with
    | error error => simp [loaded, bind, Except.bind] at expanded
    | ok schema =>
      simp only [loaded, bind, Except.bind] at expanded
      cases expanded
      obtain ⟨sn, present, rfl⟩ := List.mem_map.mp member
      simp [Dispatcher.expandNode, plain schema loaded sn present]

theorem mem_expandSteps (listed : stage ∈ steps)
    (expands : Dispatcher.expandSteps cfg leaves outDir steps = .ok dag)
    (expanded : Dispatcher.expandStep cfg leaves outDir stage = .ok nodes) :
    ∀ node ∈ nodes, node ∈ dag := by
  intro node member
  induction steps generalizing dag with
  | nil => cases listed
  | cons first rest ih =>
    simp only [Dispatcher.expandSteps, bind, Except.bind] at expands
    cases own : Dispatcher.expandStep cfg leaves outDir first with
    | error error => simp [own] at expands
    | ok mine =>
      cases others : Dispatcher.expandSteps cfg leaves outDir rest with
      | error error => simp [own, others] at expands
      | ok theirs =>
        simp only [own, others] at expands
        cases expands
        rcases List.mem_cons.mp listed with rfl | later
        · cases own.symm.trans expanded
          exact List.mem_append_left _ member
        · exact List.mem_append_right _ (ih later others)

/-- What a step contributes is in the DAG. -/
theorem mem_dag (loads : cfg.workflowLoader run.workflowName = .ok workflow)
    (listed : stage ∈ workflow.steps) (expands : dagOf cfg run = .ok dag)
    (contributes : stepNodes cfg workflow run stage = .ok nodes) :
    ∀ node ∈ nodes, node ∈ dag := by
  simp only [Dispatcher.dagOf, loads, bind, Except.bind, Dispatcher.nodesOf] at expands
  simp only [stepNodes, bind, Except.bind] at contributes
  cases found : Dispatcher.stepLeaves cfg workflow.steps with
  | error error => simp [found] at contributes
  | ok leaves =>
    rw [found] at expands contributes
    exact mem_expandSteps listed expands contributes

theorem plain_stepNodes (plain : PlainNodes cfg stage)
    (contributes : stepNodes cfg workflow run stage = .ok nodes) :
    ∀ node ∈ nodes, node.skipIf = stage.skipIf := by
  simp only [stepNodes, bind, Except.bind] at contributes
  cases found : Dispatcher.stepLeaves cfg workflow.steps with
  | error error => simp [found] at contributes
  | ok leaves =>
    rw [found] at contributes
    exact skipIf_of_plain plain contributes

end Step

/-! ### Whole branches -/

/-- The run has a row for the node. -/
def HasRow (db : Db) (runId nodeId : String) : Prop :=
  ∃ job ∈ db.jobs.rows, job.runId = runId ∧ job.nodeId = nodeId

def SkippedNode (db : Db) (runId nodeId : String) : Prop :=
  ∃ job ∈ db.jobs.rows, job.runId = runId ∧ job.nodeId = nodeId ∧ job.status = .skipped

section Branch

variable {cfg : Config} {sys : Sys} {run : RunRow} {workflow : Workflow} {stage : WorkflowStep}
  {nodes dag : List DagNode} {branch : List String} {value : Bool}

theorem Whole.all_or_none (whole : Whole cfg run.id branch value sys) :
    (∀ id ∈ branch, ¬ SkippedNode sys.store run.id id) ∨
      ∀ id ∈ branch, HasRow sys.store run.id id → SkippedNode sys.store run.id id := by
  cases value with
  | false =>
    left
    rintro id inside ⟨job, member, mine, rfl, skipped⟩
    have impossible := (whole.rows job member mine inside).mp skipped
    cases impossible
  | true =>
    right
    rintro id inside ⟨job, member, mine, rfl⟩
    exact ⟨job, member, mine, rfl, (whole.rows job member mine inside).mpr rfl⟩

/-- **Whole-branch skip.** -/
theorem branch_skipped_as_one (loads : cfg.workflowLoader run.workflowName = .ok workflow)
    (listed : stage ∈ workflow.steps) (plain : PlainNodes cfg stage)
    (expands : dagOf cfg run = .ok dag)
    (contributes : stepNodes cfg workflow run stage = .ok nodes)
    (stored : run ∈ sys.store.runs.rows)
    (reached : Reach (step cfg) (steady cfg run.id (nodes.map DagNode.id) value) Sys.empty sys) :
    (∀ node ∈ nodes, node.skipIf = stage.skipIf) ∧
    ((∀ node ∈ nodes, ¬ SkippedNode sys.store run.id node.id) ∨
      ∀ node ∈ nodes, HasRow sys.store run.id node.id → SkippedNode sys.store run.id node.id) ∧
    (run.status = .completed →
      (∀ node ∈ nodes, ¬ SkippedNode sys.store run.id node.id) ∨
        ∀ node ∈ nodes, SkippedNode sys.store run.id node.id) := by
  have inside := mem_dag loads listed expands contributes
  have fits : Fits cfg run.id (nodes.map DagNode.id) sys.store := by
    intro now found
    cases (Db.run?_of_mem stored).symm.trans found
    refine ⟨dag, expands, fun id named => ?_⟩
    obtain ⟨node, member, rfl⟩ := List.mem_map.mp named
    exact ⟨node, inside node member, rfl⟩
  have split := (reach_whole reached fits).all_or_none
  simp only [List.forall_mem_map] at split
  refine ⟨plain_stepNodes plain contributes, split, fun completed => ?_⟩
  refine split.imp_right fun each node member => each node member ?_
  have wellformed := (reach_wellformed wellformed_empty reached).2
  obtain ⟨all, again, -, satisfied⟩ := wellformed.coherent.finished run stored completed
  cases expands.symm.trans again
  obtain ⟨job, present, mine, named, -⟩ := satisfied node (inside node member)
  exact ⟨job, present, mine, named⟩

end Branch

/-! ### Samples -/

namespace Sample

/-- A draft of two nodes, skipped once the probe has found something. -/
def draft (dependsOn : List String) : WorkflowStep where
  id := "draft"
  kind := .pipeline
  pipeline := "two"
  dependsOn := dependsOn
  skipIf := some (.str "probe/n")

def drafts (dependsOn : List String) : Workflow where
  steps := [{ id := "probe", kind := .pipeline, pipeline := "one" }, draft dependsOn]

def drafting (dependsOn : List String) : Config where
  workflowLoader _ := .ok (drafts dependsOn)
  pipelineSchemaLoader name :=
    if name = "one" then .ok [{ id := "n" }]
    else .ok [{ id := "a" }, { id := "b", dependsOn := ["a"] }]
  resolveRef _ context :=
    ((Dict.get? context "probe/n").map Except.ok).getD (.error ⟨.keyError, "probe/n"⟩)
  literalEval _ := none
  jsonLoads _ := none
  strOf _ := ""

def finding : Host :=
  { host with
    invoke := fun _ _ => .ok (.dict [("context_delta", .dict [("found", .json (.bool true))])]) }

/-- Both steps start together, and the probe completes between the expansions of the draft. -/
def draftedBeside : List Label := List.flatten [
  [.insertRun run, .expand finding 3], List.replicate 8 (.advance 0),
  [.claimCpu { host := "a" } finding false], List.replicate 5 (.advance 1),
  [.claimCpu { host := "b" } finding false], List.replicate 5 (.advance 2),
  [.drain finding 3], List.replicate 7 (.advance 3)]

/-- The draft waits for the probe. -/
def draftedAfter : List Label := List.flatten [
  [.insertRun run, .expand finding 3], List.replicate 6 (.advance 0),
  [.claimCpu { host := "a" } finding false], List.replicate 5 (.advance 1),
  [.drain finding 3], List.replicate 9 (.advance 2)]

/-- The state at the end of a schedule. -/
def halfDrafted : Sys :=
  (follow (step (drafting [])) anyStep Sys.empty draftedBeside).getD Sys.empty

def undrafted : Sys :=
  (follow (step (drafting ["probe"]))
    (steady (drafting ["probe"]) "r" ["draft/a", "draft/b"] true) Sys.empty draftedAfter).getD
      Sys.empty

theorem plain_draft {dependsOn : List String} :
    PlainNodes (drafting dependsOn) (draft dependsOn) := by
  intro schema loaded sn present
  cases loaded
  simp only [List.mem_cons, List.not_mem_nil, or_false] at present
  rcases present with rfl | rfl <;> rfl

theorem ok_of_toOption {α : Type} {result : Except PyError α} {value : α}
    (given : result.toOption = some value) : result = .ok value := by
  cases result with
  | error error => cases given
  | ok found =>
    cases given
    rfl

/-- The run is over, and these are the nodes of its draft. -/
theorem drafted {dependsOn : List String} {sys : Sys}
    (ended : ((sys.store.run? "r").any fun run => run.status == .completed &&
      (dagOf (drafting dependsOn) run).toOption.isSome &&
      ((stepNodes (drafting dependsOn) (drafts dependsOn) run (draft dependsOn)).toOption.map
        (List.map DagNode.id)) == some ["draft/a", "draft/b"]) = true) :
    ∃ run ∈ sys.store.runs.rows, run.id = "r" ∧ run.status = .completed ∧
      (∃ dag, dagOf (drafting dependsOn) run = .ok dag) ∧
      ∃ nodes, stepNodes (drafting dependsOn) (drafts dependsOn) run (draft dependsOn) =
        .ok nodes ∧ nodes.map DagNode.id = ["draft/a", "draft/b"] := by
  obtain ⟨run, found, reads⟩ := (Option.any_eq_true _ _).mp ended
  simp only [Bool.and_eq_true, beq_iff_eq, Option.map_eq_some_iff] at reads
  obtain ⟨⟨completed, expands⟩, nodes, contributes, named⟩ := reads
  obtain ⟨dag, listed⟩ := Option.isSome_iff_exists.mp expands
  obtain ⟨member, same⟩ := Db.run?_mem found
  exact ⟨run, member, same, completed, ⟨dag, ok_of_toOption listed⟩, nodes,
    ok_of_toOption contributes, named⟩

end Sample

/-- The first node of the branch has run when the second is skipped. -/
theorem branch_skipped_in_part : ¬ ∀ sys, Reach (step (Sample.drafting [])) anyStep Sys.empty sys →
    ∀ run ∈ sys.store.runs.rows, run.status = .completed →
    ∀ stage ∈ (Sample.drafts []).steps, PlainNodes (Sample.drafting []) stage →
    ∀ nodes, stepNodes (Sample.drafting []) (Sample.drafts []) run stage = .ok nodes →
      (∀ node ∈ nodes, ¬ SkippedNode sys.store run.id node.id) ∨
        ∀ node ∈ nodes, SkippedNode sys.store run.id node.id := by
  intro promised
  have reached : Reach (step (Sample.drafting [])) anyStep Sys.empty Sample.halfDrafted :=
    Reach.follow_getD Sample.draftedBeside (by decide +kernel)
  obtain ⟨run, stored, same, completed, -, nodes, contributes, named⟩ :=
    @Sample.drafted [] Sample.halfDrafted (by decide +kernel)
  have first : ¬ SkippedNode Sample.halfDrafted.store run.id "draft/a" := by
    rw [same]
    unfold SkippedNode
    decide +kernel
  have second : SkippedNode Sample.halfDrafted.store run.id "draft/b" := by
    rw [same]
    unfold SkippedNode
    decide +kernel
  have each (id : String) (inside : id ∈ ["draft/a", "draft/b"]) : ∃ node ∈ nodes, node.id = id :=
    List.mem_map.mp (named ▸ inside)
  rcases promised _ reached run stored completed (Sample.draft []) (by simp [Sample.drafts])
    Sample.plain_draft nodes contributes with none | all
  · obtain ⟨node, member, named⟩ := each "draft/b" (by simp)
    exact none node member (named ▸ second)
  · obtain ⟨node, member, named⟩ := each "draft/a" (by simp)
    exact first (named ▸ all node member)

/-- The draft that waits for the probe is skipped as a whole. -/
theorem waiting_draft_skipped : ∃ sys run nodes,
    Reach (step (Sample.drafting ["probe"]))
      (steady (Sample.drafting ["probe"]) run.id (nodes.map DagNode.id) true) Sys.empty sys ∧
    run ∈ sys.store.runs.rows ∧ run.status = .completed ∧
    stepNodes (Sample.drafting ["probe"]) (Sample.drafts ["probe"]) run
      (Sample.draft ["probe"]) = .ok nodes ∧
    nodes.map DagNode.id = ["draft/a", "draft/b"] ∧
    ∀ node ∈ nodes, SkippedNode sys.store run.id node.id := by
  obtain ⟨run, stored, same, completed, ⟨dag, expands⟩, nodes, contributes, named⟩ :=
    @Sample.drafted ["probe"] Sample.undrafted (by decide +kernel)
  have reached : Reach (step (Sample.drafting ["probe"]))
      (steady (Sample.drafting ["probe"]) run.id (nodes.map DagNode.id) true) Sys.empty
      Sample.undrafted := by
    rw [same, named]
    exact Reach.follow_getD Sample.draftedAfter (by decide +kernel)
  have skipped : SkippedNode Sample.undrafted.store run.id "draft/a" := by
    rw [same]
    unfold SkippedNode
    decide +kernel
  obtain ⟨node, member, first⟩ : ∃ node ∈ nodes, node.id = "draft/a" :=
    List.mem_map.mp (named ▸ List.mem_cons_self)
  obtain ⟨-, -, whole⟩ := @branch_skipped_as_one (Sample.drafting ["probe"]) Sample.undrafted run
    (Sample.drafts ["probe"]) (Sample.draft ["probe"]) nodes dag true rfl
    (by simp [Sample.drafts]) Sample.plain_draft expands contributes stored reached
  refine ⟨_, run, nodes, reached, stored, completed, contributes, named, ?_⟩
  exact (whole completed).resolve_left fun none => none node member (first ▸ skipped)

end QueueWorkflows
