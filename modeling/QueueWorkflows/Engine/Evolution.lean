import QueueWorkflows.Engine.System

/-! What a committed statement can do to the tables. `Evolves` is what all of
them have in common; the paths of the engine are then shown to keep to it while
any others run, and what holds of every run of the system follows. -/

namespace QueueWorkflows

open Relation (ReflTransGen)
open Dispatcher (dagOf nodesOf findReadyNodes allSatisfied)

/-- No statement takes a row out of these. -/
def JobStatus.final (status : JobStatus) : Bool :=
  status.closed || status == .skipped

/-- The columns that identify a run and its DAG. -/
structure SameRun (old new : RunRow) : Prop where
  id : new.id = old.id
  workflowName : new.workflowName = old.workflowName
  outDir : new.outDir = old.outDir
  mode : new.mode = old.mode
  project : new.project = old.project

theorem SameRun.refl (run : RunRow) : SameRun run run := ⟨rfl, rfl, rfl, rfl, rfl⟩

theorem SameRun.trans {first second third : RunRow} (early : SameRun first second)
    (late : SameRun second third) : SameRun first third :=
  ⟨late.id.trans early.id, late.workflowName.trans early.workflowName,
    late.outDir.trans early.outDir, late.mode.trans early.mode, late.project.trans early.project⟩

theorem SameRun.dagOf_eq {cfg : Config} {old new : RunRow} (same : SameRun old new) :
    dagOf cfg new = dagOf cfg old := by
  unfold Dispatcher.dagOf Dispatcher.nodesOf
  rw [same.workflowName, same.outDir]

/-- The run has a completed or skipped row for the node. -/
def Satisfied (db : Db) (runId nodeId : String) : Prop :=
  ∃ job ∈ db.jobs.rows, job.runId = runId ∧ job.nodeId = nodeId ∧ job.status.satisfied

theorem satisfied_iff {db : Db} {runId nodeId : String} :
    Satisfied db runId nodeId ↔
      ((db.jobsOf runId).any fun job => job.nodeId == nodeId && job.status.satisfied) = true := by
  simp only [Satisfied, List.any_eq_true, Db.mem_jobsOf, Bool.and_eq_true, beq_iff_eq]
  constructor
  · rintro ⟨job, present, run, node, status⟩
    exact ⟨job, ⟨present, run⟩, node, status⟩
  · rintro ⟨job, ⟨present, run⟩, node, status⟩
    exact ⟨job, present, run, node, status⟩

/-- The run has a row that is queued, running or awaiting input. -/
def Live (runId : String) (db : Db) : Prop :=
  ∃ job ∈ db.jobs.rows, job.runId = runId ∧ job.status.live = true

def hasLive (db : Db) (runId : String) : Bool :=
  (db.jobsOf runId).any fun job => job.status.live

theorem live_iff {runId : String} {db : Db} : Live runId db ↔ hasLive db runId = true := by
  simp [Live, hasLive, and_assoc]

/-- Where a row stands for a DAG node, the dependencies of that node are met. A
DAG that lists one id twice has no single node of that id; one of them is meant. -/
def Caused (cfg : Config) (db : Db) (job : NodeJob) : Prop :=
  ∃ run ∈ db.runs.rows, run.id = job.runId ∧ ∀ nodes, dagOf cfg run = .ok nodes →
    (∃ node ∈ nodes, node.id = job.nodeId) →
      ∃ node ∈ nodes, node.id = job.nodeId ∧
        ∀ dep ∈ node.dependsOn, Satisfied db job.runId dep

/-- The completion check holds of the run. -/
def Finished (cfg : Config) (db : Db) (run : RunRow) : Prop :=
  ∃ nodes, dagOf cfg run = .ok nodes ∧ nodes ≠ [] ∧
    ∀ node ∈ nodes, Satisfied db run.id node.id

theorem Finished.of_same {cfg : Config} {db : Db} {old new : RunRow}
    (finished : Finished cfg db old) (same : SameRun old new) : Finished cfg db new := by
  obtain ⟨nodes, expands, present, all⟩ := finished
  refine ⟨nodes, same.dagOf_eq.trans expands, present, fun node member => ?_⟩
  rw [same.id]
  exact all node member

theorem finished_of_allSatisfied {cfg : Config} {db : Db} {run : RunRow} {nodes : List DagNode}
    (expands : dagOf cfg run = .ok nodes)
    (done : allSatisfied nodes (db.jobsOf run.id) = true) : Finished cfg db run := by
  simp only [Dispatcher.allSatisfied, Bool.and_eq_true, Bool.not_eq_true', List.isEmpty_eq_false_iff,
    List.all_eq_true] at done
  exact ⟨nodes, expands, done.1, fun node member => satisfied_iff.mpr (done.2 node member)⟩

/-- How one row may change. -/
structure Moved (old new : NodeJob) : Prop where
  key : new.key = old.key
  inputs : new.inputs = old.inputs
  settled : old.status.final = true → new.status = old.status ∧
    new.contextDelta = old.contextDelta ∧ new.error = old.error ∧ new.finishedAt = old.finishedAt
  unskipped : new.status = .skipped → old.status = .skipped

theorem Moved.refl (job : NodeJob) : Moved job job :=
  ⟨rfl, rfl, fun _ => ⟨rfl, rfl, rfl, rfl⟩, id⟩

theorem Moved.id {old new : NodeJob} (moved : Moved old new) : new.id = old.id :=
  congrArg Prod.fst moved.key

theorem Moved.runId {old new : NodeJob} (moved : Moved old new) : new.runId = old.runId :=
  congrArg (·.2.1) moved.key

theorem Moved.nodeId {old new : NodeJob} (moved : Moved old new) : new.nodeId = old.nodeId :=
  congrArg (·.2.2) moved.key

theorem JobStatus.final_of_satisfied {status : JobStatus} (satisfied : status.satisfied = true) :
    status.final = true := by
  cases status <;> first | rfl | cases satisfied

theorem Moved.satisfied {old new : NodeJob} (moved : Moved old new)
    (satisfied : old.status.satisfied = true) : new.status.satisfied = true := by
  rw [(moved.settled (JobStatus.final_of_satisfied satisfied)).1]
  exact satisfied

/-- What one committed statement can do to the store, whoever issues it. -/
structure Evolves (cfg : Config) (before after : Db) : Prop where
  sequence : before.nextJob ≤ after.nextJob
  rows : ∀ job ∈ after.jobs.rows, (∃ old ∈ before.jobs.rows, Moved old job) ∨
    (before.nextJob ≤ job.id ∧ job.id < after.nextJob ∧ Caused cfg before job)
  kept : ∀ old ∈ before.jobs.rows, old.status.satisfied = true →
    ∃ job ∈ after.jobs.rows, Moved old job
  runs : ∀ run ∈ after.runs.rows, (∃ old ∈ before.runs.rows, SameRun old run ∧
      (run.status = .completed → old.status = .completed ∨ Finished cfg before old)) ∨
    (before.run? run.id = none ∧ run.status = .queued)
  present : ∀ old ∈ before.runs.rows, ∃ run ∈ after.runs.rows, SameRun old run

namespace Evolves

variable {cfg : Config} {before after : Db}

theorem refl (cfg : Config) (db : Db) : Evolves cfg db db where
  sequence := le_rfl
  rows job member := .inl ⟨job, member, .refl job⟩
  kept job member _ := ⟨job, member, .refl job⟩
  runs run member := .inl ⟨run, member, .refl run, .inl⟩
  present run member := ⟨run, member, .refl run⟩

theorem satisfied (evolves : Evolves cfg before after) {runId nodeId : String}
    (met : Satisfied before runId nodeId) : Satisfied after runId nodeId := by
  obtain ⟨old, member, run, node, status⟩ := met
  obtain ⟨job, present, moved⟩ := evolves.kept old member status
  exact ⟨job, present, moved.runId.trans run, moved.nodeId.trans node, moved.satisfied status⟩

theorem caused (evolves : Evolves cfg before after) {job : NodeJob}
    (cause : Caused cfg before job) : Caused cfg after job := by
  obtain ⟨run, member, owner, deps⟩ := cause
  obtain ⟨now, present, same⟩ := evolves.present run member
  refine ⟨now, present, same.id.trans owner, fun nodes expands listed => ?_⟩
  obtain ⟨node, inside, named, met⟩ := deps nodes (same.dagOf_eq.symm.trans expands) listed
  exact ⟨node, inside, named, fun dep needed => evolves.satisfied (met dep needed)⟩

theorem finished (evolves : Evolves cfg before after) {run : RunRow}
    (done : Finished cfg before run) : Finished cfg after run := by
  obtain ⟨nodes, expands, present, all⟩ := done
  exact ⟨nodes, expands, present, fun node member => evolves.satisfied (all node member)⟩

end Evolves

theorem Caused.of_moved {cfg : Config} {db : Db} {old new : NodeJob} (moved : Moved old new)
    (cause : Caused cfg db old) : Caused cfg db new := by
  unfold Caused at cause ⊢
  rw [moved.runId, moved.nodeId]
  exact cause

/-! ### The statements -/

section Statements

variable {cfg : Config} {db after : Db}

/-- A statement that touches neither table. -/
theorem Evolves.of_same_tables (jobs : after.jobs = db.jobs) (runs : after.runs = db.runs)
    (next : after.nextJob = db.nextJob) : Evolves cfg db after where
  sequence := next.ge
  rows job member := .inl ⟨job, jobs ▸ member, .refl job⟩
  kept job member _ := ⟨job, jobs.symm ▸ member, .refl job⟩
  runs run member := .inl ⟨run, runs ▸ member, .refl run, .inl⟩
  present run member := ⟨run, runs.symm ▸ member, .refl run⟩

/-- `UPDATE workflow_node_jobs`. -/
theorem Evolves.of_updateJobs {selects : NodeJob → Bool} {change : NodeJob → NodeJob}
    {keeps : ∀ job, (change job).key = job.key}
    (moves : ∀ job ∈ db.jobs.rows, selects job = true → Moved job (change job)) :
    Evolves cfg db { db with jobs := db.jobs.update selects change keeps } := by
  have moved : ∀ job ∈ db.jobs.rows, Moved job (if selects job then change job else job) := by
    intro job member
    by_cases selected : selects job = true
    · rw [if_pos selected]
      exact moves job member selected
    · rw [if_neg selected]
      exact .refl job
  refine ⟨le_rfl, fun job member => ?_, fun old member _ => ?_,
    fun run member => .inl ⟨run, member, .refl run, .inl⟩, fun run member => ⟨run, member, .refl run⟩⟩
  · obtain ⟨old, present, rfl⟩ := List.mem_map.mp member
    exact .inl ⟨old, present, moved old present⟩
  · exact ⟨_, List.mem_map_of_mem member, moved old member⟩

/-- `UPDATE workflow_runs`. -/
theorem Evolves.of_updateRuns {selects : RunRow → Bool} {change : RunRow → RunRow}
    {keeps : ∀ run, (change run).id = run.id} (same : ∀ run, SameRun run (change run))
    (finishes : ∀ run ∈ db.runs.rows, selects run = true → (change run).status = .completed →
      run.status = .completed ∨ Finished cfg db run) :
    Evolves cfg db { db with runs := db.runs.update selects change keeps } := by
  refine ⟨le_rfl, fun job member => .inl ⟨job, member, .refl job⟩,
    fun job member _ => ⟨job, member, .refl job⟩, fun run member => .inl ?_, fun old member => ?_⟩
  · obtain ⟨old, present, rfl⟩ := List.mem_map.mp member
    refine ⟨old, present, ?_⟩
    by_cases selected : selects old = true
    · rw [if_pos selected]
      exact ⟨same old, finishes old present selected⟩
    · rw [if_neg selected]
      exact ⟨.refl old, .inl⟩
  · refine ⟨_, List.mem_map_of_mem member, ?_⟩
    by_cases selected : selects old = true
    · rw [if_pos selected]
      exact same old
    · rw [if_neg selected]
      exact .refl old

theorem insertJob_cases {job : Nat → Time → NodeJob} {id : Nat}
    (done : NodeQueue.insertJob job db = .ok (id, after)) :
    (∃ run ∈ db.runs.rows, run.id = (job db.nextJob db.clock).runId) ∧
      after.jobs.rows = db.jobs.rows ++ [job db.nextJob db.clock] ∧
      after.nextJob = db.nextJob + 1 ∧ after.runs = db.runs ∧ after.events = db.events ∧
      after.submissions = db.submissions := by
  simp only [NodeQueue.insertJob] at done
  split at done
  · cases done
  · rename_i run found
    split at done
    · cases done
    · rename_i jobs inserted
      cases done
      exact ⟨⟨run, Db.run?_mem found⟩, Relational.Table.rows_insert? inserted, rfl, rfl, rfl, rfl⟩

theorem Evolves.of_insertJob {job : Nat → Time → NodeJob} {id : Nat}
    (numbered : ∀ id now, (job id now).id = id)
    (cause : Caused cfg db (job db.nextJob db.clock))
    (done : NodeQueue.insertJob job db = .ok (id, after)) : Evolves cfg db after := by
  obtain ⟨-, rows, next, runs, -, -⟩ := insertJob_cases done
  refine ⟨next ▸ Nat.le_succ _, fun other member => ?_, fun old member _ => ?_,
    fun run member => .inl ⟨run, runs ▸ member, .refl run, .inl⟩,
    fun run member => ⟨run, runs.symm ▸ member, .refl run⟩⟩
  · rw [rows] at member
    rcases List.mem_append.mp member with old | last
    · exact .inl ⟨other, old, .refl other⟩
    · rw [List.mem_singleton.mp last, next, numbered]
      exact .inr ⟨le_rfl, Nat.lt_succ_self _, cause⟩
  · rw [rows]
    exact ⟨old, List.mem_append_left _ member, .refl old⟩

theorem Evolves.of_deleteNonTerminal {runId : String} {dropped : List String}
    (done : NodeQueue.deleteNonTerminalJobsForRun runId db = .ok (dropped, after)) :
    Evolves cfg db after := by
  cases done
  refine ⟨le_rfl, fun job member => .inl ⟨job, List.mem_of_mem_filter member, .refl job⟩,
    fun old member status => ⟨old, ?_, .refl old⟩,
    fun run member => .inl ⟨run, member, .refl run, .inl⟩, fun run member => ⟨run, member, .refl run⟩⟩
  refine List.mem_filter.mpr ⟨member, ?_⟩
  simp [status]

end Statements

end QueueWorkflows
