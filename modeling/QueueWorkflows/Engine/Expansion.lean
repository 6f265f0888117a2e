import QueueWorkflows.Base.Solo
import QueueWorkflows.Engine.Evolution

/-! What `_process_ready` makes of a run's job table. Only the node id, the status
and the delta of a row matter to it; on these the loop is a function of the table
it starts from, and it comes to an end. -/

namespace QueueWorkflows

open Transaction (Prog)
open Transaction.Prog (Solo returning commit ofExcept)
open Dispatcher (findReadyNodes allSatisfied byModel)

/-- What the expansion of a DAG sees of a row. -/
structure Cell where
  nodeId : String
  status : JobStatus
  delta : Json

def NodeJob.cell (job : NodeJob) : Cell := ⟨job.nodeId, job.status, job.contextDelta⟩

namespace Cells

def ready (nodes : List DagNode) (cells : List Cell) : List DagNode :=
  nodes.filter fun node =>
    !(cells.any fun cell => cell.nodeId == node.id) &&
      node.dependsOn.all fun dep =>
        cells.any fun cell => cell.nodeId == dep && cell.status.satisfied

def finished (nodes : List DagNode) (cells : List Cell) : Bool :=
  !nodes.isEmpty && nodes.all fun node =>
    cells.any fun cell => cell.nodeId == node.id && cell.status.satisfied

def skipContext (context : Dict) (cells : List Cell) : Dict :=
  cells.foldl (fun ctx cell =>
    if cell.status = .completed ∧ cell.delta.truthy then Dict.set ctx cell.nodeId cell.delta
    else ctx) context

def skips (cfg : Config) (context : Dict) (cells : List Cell) (node : DagNode) : Bool :=
  match node.skipIf.filter Json.truthy with
  | none => false
  | some skipIf =>
    match cfg.resolveRef skipIf (skipContext context cells) with
    | .ok value => value.truthy
    | .error _ => false

/-- The row a ready node gets. -/
def marker (cfg : Config) (context : Dict) (cells : List Cell) (node : DagNode) : Cell :=
  ⟨node.id, if skips cfg context cells node then .skipped else .queued, .obj []⟩

/-- One turn of the loop. -/
def round (cfg : Config) (context : Dict) (nodes : List DagNode) (cells : List Cell) : List Cell :=
  cells ++ (byModel (ready nodes cells)).map (marker cfg context cells)

/-- The loop runs from one table to another. -/
inductive Settles (cfg : Config) (context : Dict) (nodes : List DagNode) :
    List Cell → List Cell → Prop
  | done {cells : List Cell} (none : ready nodes cells = []) :
      Settles cfg context nodes cells cells
  | more {cells last : List Cell} (some : ready nodes cells ≠ [])
      (rest : Settles cfg context nodes (round cfg context nodes cells) last) :
      Settles cfg context nodes cells last

variable {cfg : Config} {context : Dict} {nodes : List DagNode} {cells last other : List Cell}

theorem Settles.unique (first : Settles cfg context nodes cells last)
    (second : Settles cfg context nodes cells other) : last = other := by
  induction first with
  | done none =>
    cases second with
    | done => rfl
    | more some => exact absurd none some
  | more some _ ih =>
    cases second with
    | done none => exact absurd none some
    | more _ rest => exact ih rest

/-- A settled table stays as it is. -/
theorem Settles.settled (settles : Settles cfg context nodes cells last) :
    Settles cfg context nodes last last := by
  induction settles with
  | done none => exact .done none
  | more _ _ ih => exact ih

theorem Settles.exhausted (settles : Settles cfg context nodes cells last) :
    ready nodes last = [] := by
  induction settles with
  | done none => exact none
  | more _ _ ih => exact ih

/-- The nodes that have no row yet. -/
def missing (nodes : List DagNode) (cells : List Cell) : Nat :=
  nodes.countP fun node => !cells.any fun cell => cell.nodeId == node.id

theorem missing_le (nodes : List DagNode) (cells : List Cell) :
    missing nodes cells ≤ nodes.length :=
  List.countP_le_length

/-- Each turn gives a row to at least one node that had none. -/
theorem missing_round (cfg : Config) (context : Dict) (some : ready nodes cells ≠ []) :
    missing nodes (round cfg context nodes cells) < missing nodes cells := by
  obtain ⟨node, member⟩ := List.exists_mem_of_ne_nil _ some
  have within : node ∈ nodes := (List.mem_filter.mp member).1
  have free : (!cells.any fun cell => cell.nodeId == node.id) = true := by
    have both := (List.mem_filter.mp member).2
    simp only [Bool.and_eq_true] at both
    exact both.1
  have placed : ((round cfg context nodes cells).any fun cell => cell.nodeId == node.id) = true := by
    have listed : node ∈ byModel (ready nodes cells) := (List.mem_insertionSort _).mpr member
    refine List.any_eq_true.mpr ⟨marker cfg context cells node, ?_, by simp [marker]⟩
    exact List.mem_append_right _ (List.mem_map_of_mem listed)
  have fewer : ∀ other, (!(round cfg context nodes cells).any fun cell =>
      cell.nodeId == other) = true → (!cells.any fun cell => cell.nodeId == other) = true := by
    intro other
    simp only [round, List.any_append, Bool.not_or, Bool.and_eq_true]
    exact And.left
  obtain ⟨front, back, rfl⟩ := List.append_of_mem within
  have front_le := List.countP_mono_left (l := front) fun other _ => fewer other.id
  have back_le := List.countP_mono_left (l := back) fun other _ => fewer other.id
  have gone : ((round cfg context (front ++ node :: back) cells).any fun cell =>
      cell.nodeId == node.id) = true := placed
  simp only [missing, List.countP_append, List.countP_cons, free, gone, if_true]
  simp only [Bool.not_true, Bool.false_eq_true, if_false]
  omega

theorem ready_eq (nodes : List DagNode) (existing : List NodeJob) :
    findReadyNodes nodes existing = ready nodes (existing.map NodeJob.cell) := by
  simp [findReadyNodes, ready, List.any_map, Function.comp_def, NodeJob.cell]

theorem finished_eq (nodes : List DagNode) (existing : List NodeJob) :
    allSatisfied nodes existing = finished nodes (existing.map NodeJob.cell) := by
  simp [allSatisfied, finished, List.any_map, Function.comp_def, NodeJob.cell]

theorem skipContext_eq (run : RunRow) (existing : List NodeJob) :
    Dispatcher.evalSkipContext run existing =
      skipContext run.context (existing.map NodeJob.cell) := by
  rw [skipContext, List.foldl_map]
  rfl

theorem skips_eq {run : RunRow} {existing : List NodeJob} {node : DagNode} {skip : Bool}
    (decided : Dispatcher.shouldSkipNode cfg node run existing = .ok skip) :
    skips cfg run.context (existing.map NodeJob.cell) node = skip := by
  unfold Dispatcher.shouldSkipNode at decided
  rw [skipContext_eq] at decided
  unfold skips
  cases guarded : node.skipIf.filter Json.truthy with
  | none =>
    rw [guarded] at decided
    exact Except.ok.inj decided
  | some skipIf =>
    rw [guarded] at decided
    simp only at decided ⊢
    cases resolved : cfg.resolveRef skipIf (skipContext run.context (existing.map NodeJob.cell)) with
    | ok value =>
      rw [resolved] at decided
      exact Except.ok.inj decided
    | error error =>
      rw [resolved] at decided
      simp only at decided ⊢
      by_cases lenient : error.kind = .keyError ∨ error.kind = .typeError
      · rw [if_pos lenient] at decided
        exact Except.ok.inj decided
      · rw [if_neg lenient] at decided
        cases decided

end Cells

/-! ### The loop on the store -/

section Loop

variable {cfg : Config} {host : Host} {run : RunRow} {stale : List String} {db : Db}

/-- Rows were added to the run, and nothing else of runs and jobs has changed. -/
def Placed (runId : String) (db after : Db) (cells : List Cell) : Prop :=
  after.runs = db.runs ∧
    ∃ new, after.jobsOf runId = db.jobsOf runId ++ new ∧ new.map NodeJob.cell = cells

theorem Placed.trans {runId : String} {first second third : Db} {early late : List Cell}
    (before : Placed runId first second early) (behind : Placed runId second third late) :
    Placed runId first third (early ++ late) := by
  obtain ⟨runs, new, rows, rfl⟩ := before
  obtain ⟨runs', new', rows', rfl⟩ := behind
  refine ⟨runs'.trans runs, new ++ new', ?_, List.map_append⟩
  rw [rows', rows, List.append_assoc]

theorem placed_insertJob {job : Nat → Time → NodeJob} {id : Nat} {after : Db} {cell : Cell}
    (mine : ∀ id now, (job id now).runId = run.id) (looks : ∀ id now, (job id now).cell = cell)
    (done : NodeQueue.insertJob job db = .ok (id, after)) : Placed run.id db after [cell] := by
  unfold NodeQueue.insertJob at done
  simp only at done
  split at done
  · cases done
  · split at done
    · cases done
    · rename_i jobs inserted
      cases done
      refine ⟨rfl, [job db.nextJob db.clock], ?_, by simp [looks]⟩
      simp [Db.jobsOf, Relational.Table.rows_insert? inserted, List.filter_append, mine]

theorem placed_enqueueNodeJob {new : NodeQueue.NewJob} {id : Nat} {after : Db}
    (mine : new.runId = run.id) (done : NodeQueue.enqueueNodeJob new db = .ok (id, after)) :
    Placed run.id db after [⟨new.nodeId, .queued, .obj []⟩] := by
  unfold NodeQueue.enqueueNodeJob at done
  split at done
  · cases done
  · exact placed_insertJob (fun _ _ => mine) (fun _ _ => rfl) done

theorem solo_listJobs {α : Type} {site : Site} {runId : String} {rest : List NodeJob → Program α}
    {post : Except PyErr α → Db → Prop} (next : (rest (db.jobsOf runId)).Solo post db) :
    (commit site (NodeQueue.listJobsForRun runId) >>= rest).Solo post db :=
  next

theorem solo_getRun {α : Type} {site : Site} {runId : String} {rest : Option RunRow → Program α}
    {post : Except PyErr α → Db → Prop} (next : (rest (db.run? runId)).Solo post db) :
    (commit site (RunStore.getRun runId) >>= rest).Solo post db :=
  next

/-- The siblings are read without fail. -/
theorem solo_readSiblings {α : Type} {site : Site} {rest : List NodeJob → Program α}
    {post : Except PyErr α → Db → Prop} (next : (rest (db.jobsOf run.id)).Solo post db) :
    (Dispatcher.readSiblings site run >>= rest).Solo post db :=
  next

theorem solo_enqueue (node : DagNode) :
    (Dispatcher.enqueue cfg host stale node run).Solo
      (returning fun _ after => Placed run.id db after [⟨node.id, .queued, .obj []⟩]) db := by
  unfold Dispatcher.enqueue
  split
  · refine .seq (.commit_returning fun id after done => placed_enqueueNodeJob rfl done) ?_
    exact fun _ _ placed => placed
  · refine solo_readSiblings (.ofExcept_bind fun context _ => .ofExcept_bind fun resolved _ => ?_)
    refine .seq (.commit_returning fun id after done => placed_enqueueNodeJob rfl done) ?_
    exact fun _ _ placed => placed

theorem solo_dispatchNode (existing : List NodeJob) (node : DagNode) :
    (Dispatcher.dispatchNode cfg host stale run existing node).Solo
      (returning fun _ after => Placed run.id db after
        [Cells.marker cfg run.context (existing.map NodeJob.cell) node]) db := by
  unfold Dispatcher.dispatchNode
  refine .ofExcept_bind fun skip decided => ?_
  rw [Cells.marker, Cells.skips_eq decided]
  cases skip with
  | true =>
    refine .seq (.commit_returning fun id after done => ?_) fun _ _ placed => placed
    exact placed_insertJob (fun _ _ => rfl) (fun _ _ => rfl) done
  | false => exact solo_enqueue node

theorem solo_dispatchReady (existing : List NodeJob) (ready : List DagNode) :
    (Dispatcher.dispatchReady cfg host stale run existing ready).Solo
      (returning fun _ after => Placed run.id db after
        (ready.map (Cells.marker cfg run.context (existing.map NodeJob.cell)))) db := by
  induction ready generalizing db with
  | nil => exact ⟨rfl, [], by simp, rfl⟩
  | cons node rest ih =>
    refine .seq (solo_dispatchNode existing node) fun _ middle placed => ?_
    refine .seq ih fun _ after more => ?_
    exact placed.trans more

/-- The table after one turn of the loop. -/
theorem Placed.next {existing : List NodeJob} {nodes : List DagNode} {after : Db}
    (placed : Placed run.id db after ((byModel (Cells.ready nodes (existing.map NodeJob.cell))).map
      (Cells.marker cfg run.context (existing.map NodeJob.cell))))
    (read : existing = db.jobsOf run.id := by rfl) :
    (after.jobsOf run.id).map NodeJob.cell =
      Cells.round cfg run.context nodes ((db.jobsOf run.id).map NodeJob.cell) := by
  subst read
  obtain ⟨-, new, rows, looks⟩ := placed
  rw [rows, List.map_append, looks]
  rfl

/-- With more fuel than nodes without a row, the loop ends, and has settled the table. -/
theorem solo_processReady {wf : Workflow} {nodes : List DagNode} {fuel : Nat}
    (expands : Dispatcher.nodesOf cfg wf run = .ok nodes)
    (enough : Cells.missing nodes ((db.jobsOf run.id).map NodeJob.cell) < fuel) :
    (Dispatcher.processReady cfg host stale wf run fuel).Solo
      (returning fun _ after => ∃ cells, Placed run.id db after cells ∧
        Cells.Settles cfg run.context nodes ((db.jobsOf run.id).map NodeJob.cell)
          ((db.jobsOf run.id).map NodeJob.cell ++ cells)) db := by
  induction fuel generalizing db with
  | zero => exact absurd enough (Nat.not_lt_zero _)
  | succ fuel ih =>
    unfold Dispatcher.processReady
    refine solo_listJobs ?_
    rw [expands]
    refine Solo.ofExcept_bind fun found same => ?_
    cases same
    simp only [Cells.ready_eq]
    split
    · rename_i none
      refine ⟨[], ⟨rfl, [], by simp, rfl⟩, ?_⟩
      rw [List.append_nil]
      exact .done (List.isEmpty_iff.mp none)
    · rename_i some
      have able : Cells.ready nodes ((db.jobsOf run.id).map NodeJob.cell) ≠ [] := by
        simpa using some
      refine Solo.seq (solo_dispatchReady _ _) fun _ middle placed => ?_
      have next := placed.next
      have fewer := Cells.missing_round cfg run.context able
      refine Solo.seq (ih (by rw [next]; omega)) fun _ last ⟨cells, more, settles⟩ => ?_
      refine ⟨_, placed.trans more, .more able ?_⟩
      rw [next] at settles
      rw [← List.append_assoc]
      exact settles

end Loop

end QueueWorkflows
