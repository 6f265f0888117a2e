import QueueWorkflows.Base.Graph
import QueueWorkflows.Engine.Expansion
import QueueWorkflows.Engine.Invariants

/-! The fixpoint of `_process_ready`: without a concurrent writer the loop comes to
its end, has counted the rows it added, and leaves no node ready. On an acyclic DAG
what it leaves is a full table or one with a row that is not satisfied. -/

namespace QueueWorkflows

open Transaction (Prog)
open Transaction.Prog (Solo returning commit ofExcept)
open Dispatcher (findReadyNodes byModel)

/-- `before` is a dependency of `after`. -/
def DependsOn (nodes : List DagNode) (before after : String) : Prop :=
  ∃ node ∈ nodes, node.id = after ∧ before ∈ node.dependsOn

/-- A DAG as the expansion of a workflow should be: no id twice, no dependency on a
node that does not exist, no cycle. -/
structure WellFormedDag (nodes : List DagNode) : Prop where
  distinct : (nodes.map DagNode.id).Nodup
  named : ∀ node ∈ nodes, ∀ dep ∈ node.dependsOn, ∃ other ∈ nodes, other.id = dep
  acyclic : Graph.Acyclic (DependsOn nodes)

/-- The exception comes out of the node's `skip_if`, or out of resolving its inputs. -/
def Raises (cfg : Config) (host : Host) (run : RunRow) (node : DagNode) (error : PyErr) : Prop :=
  (∃ existing, Dispatcher.shouldSkipNode cfg node run existing = .error error) ∨
    node.input = false ∧ ∃ siblings, (do
      let context ← Dispatcher.refContext host run siblings
      Dispatcher.resolveInputs cfg context node.inputs) = .error error

/-- Rows of the run were added, and nothing else has changed. -/
structure Grown (runId : String) (db after : Db) (new : List NodeJob) : Prop where
  frame : after = { db with jobs := after.jobs, nextJob := after.nextJob }
  rows : after.jobs.rows = db.jobs.rows ++ new
  mine : ∀ job ∈ new, job.runId = runId
  bounded : Bounded after

namespace Grown

variable {runId : String} {db middle after : Db} {new more : List NodeJob}

theorem refl (bounded : Bounded db) : Grown runId db db [] :=
  ⟨rfl, by simp, by simp, bounded⟩

theorem trans (first : Grown runId db middle new) (second : Grown runId middle after more) :
    Grown runId db after (new ++ more) where
  frame := by
    rw [second.frame, first.frame]
  rows := by
    rw [second.rows, first.rows, List.append_assoc]
  mine job present := (List.mem_append.mp present).elim (first.mine job) (second.mine job)
  bounded := second.bounded

theorem runs (grown : Grown runId db after new) : after.runs = db.runs := by
  rw [grown.frame]

theorem jobsOf (grown : Grown runId db after new) : after.jobsOf runId = db.jobsOf runId ++ new := by
  unfold Db.jobsOf
  rw [grown.rows, List.filter_append]
  congr 1
  rw [List.filter_eq_self]
  intro job present
  simpa using grown.mine job present

/-- The cell constraint of the table: one row for each node. -/
theorem nodup (grown : Grown runId db after new) : (new.map NodeJob.nodeId).Nodup := by
  have apart := List.pairwise_map.mp after.jobs.unique
  rw [grown.rows] at apart
  refine List.pairwise_map.mpr ((apart.sublist (List.sublist_append_right _ _)).imp_of_mem ?_)
  intro first second present₁ present₂ distinct same
  refine distinct (.inr (Prod.ext ?_ same))
  exact (grown.mine first present₁).trans (grown.mine second present₂).symm

end Grown

section Loop

variable {cfg : Config} {host : Host} {run : RunRow} {stale : List String} {db : Db}
  {nodes : List DagNode}

/-- The cell of the node is free. -/
def Vacant (runId nodeId : String) (db : Db) : Prop :=
  ∀ job ∈ db.jobsOf runId, job.nodeId ≠ nodeId

/-- A row for a free cell of a stored run is never refused. -/
theorem grown_insertJob {job : Nat → Time → NodeJob} {nodeId : String}
    (stored : (db.run? run.id).isSome) (bounded : Bounded db) (vacant : Vacant run.id nodeId db)
    (mine : ∀ id now, (job id now).runId = run.id) (node : ∀ id now, (job id now).nodeId = nodeId)
    (numbered : ∀ id now, (job id now).id = id) :
    ∃ id after, NodeQueue.insertJob job db = .ok (id, after) ∧
      Grown run.id db after [job db.nextJob db.clock] := by
  obtain ⟨row, found⟩ := Option.isSome_iff_exists.mp stored
  have apart : ∀ other ∈ db.jobs.rows, ¬ NodeJob.Clash other.key (job db.nextJob db.clock).key := by
    rintro other present (sameId | sameCell)
    · have below := bounded other present
      have same : other.id = db.nextJob := sameId.trans (numbered _ _)
      omega
    · have sameRun : other.runId = run.id :=
        (congrArg Prod.fst sameCell).trans (mine _ _)
      refine vacant other (Db.mem_jobsOf.mpr ⟨present, sameRun⟩) ?_
      exact (congrArg Prod.snd sameCell).trans (node _ _)
  obtain ⟨jobs, inserted⟩ := Relational.Table.insert?_of_apart apart
  refine ⟨(job db.nextJob db.clock).id, { db with jobs := jobs, nextJob := db.nextJob + 1 }, ?_, ?_⟩
  · simp only [NodeQueue.insertJob, mine, found]
    rw [inserted]
  · have rows := Relational.Table.rows_insert? inserted
    refine ⟨rfl, rows, by simp [mine], fun other present => ?_⟩
    simp only [rows] at present
    rcases List.mem_append.mp present with old | new
    · exact (bounded other old).trans (Nat.lt_succ_self _)
    · rw [List.mem_singleton.mp new, numbered]
      exact Nat.lt_succ_self _

/-- What the dispatch of some nodes comes to: a row for each, in this order, or an
exception that one of them raises, after the rows before it. -/
def Dispatched {α : Type} (cfg : Config) (host : Host) (run : RunRow) (nodes : List DagNode) (db : Db)
    (counts : α → Nat) (outcome : Except PyErr α) (after : Db) : Prop :=
  ∃ new, Grown run.id db after new ∧ (∀ job ∈ new, ∃ node ∈ nodes, node.id = job.nodeId) ∧
    match outcome with
    | .ok value => counts value = new.length
    | .error error => ∃ node ∈ nodes, Raises cfg host run node error

theorem Dispatched.among {α : Type} {few : List DagNode} {counts : α → Nat}
    {outcome : Except PyErr α} {after : Db}
    (dispatched : Dispatched cfg host run few db counts outcome after)
    (members : ∀ node ∈ few, node ∈ nodes) :
    Dispatched cfg host run nodes db counts outcome after := by
  obtain ⟨new, grown, about, ends⟩ := dispatched
  refine ⟨new, grown, fun job present => ?_, ?_⟩
  · exact (about job present).imp fun node both => ⟨members node both.1, both.2⟩
  · cases outcome with
    | ok value => exact ends
    | error error => exact ends.imp fun node both => ⟨members node both.1, both.2⟩

theorem Dispatched.returns {α β : Type} {counts : α → Nat} {recount : β → Nat} {value : α}
    {result : β} {after : Db} (dispatched : Dispatched cfg host run nodes db counts (.ok value) after)
    (same : recount result = counts value) :
    Dispatched cfg host run nodes db recount (.ok result) after := by
  obtain ⟨new, grown, about, counted⟩ := dispatched
  exact ⟨new, grown, about, same.trans counted⟩

/-- What is dispatched after other nodes have got their rows. -/
theorem Dispatched.following {α : Type} {front few : List DagNode} {counts : α → Nat}
    {outcome : Except PyErr α} {middle after : Db} {new : List NodeJob}
    (grown : Grown run.id db middle new) (about : ∀ job ∈ new, ∃ node ∈ front, node.id = job.nodeId)
    (rest : Dispatched cfg host run few middle counts outcome after) :
    Dispatched cfg host run (front ++ few) db (fun value => new.length + counts value) outcome
      after := by
  obtain ⟨more, further, named, ends⟩ := rest
  refine ⟨new ++ more, grown.trans further, fun job present => ?_, ?_⟩
  · rcases List.mem_append.mp present with here | there
    · exact (about job here).imp fun node both => ⟨List.mem_append_left _ both.1, both.2⟩
    · exact (named job there).imp fun node both => ⟨List.mem_append_right _ both.1, both.2⟩
  · cases outcome with
    | ok value =>
      simp only at ends ⊢
      rw [ends, List.length_append]
    | error error => exact ends.imp fun node both => ⟨List.mem_append_right _ both.1, both.2⟩

theorem solo_insert {site : Site} {job : Nat → Time → NodeJob} {node : DagNode}
    (stored : (db.run? run.id).isSome) (bounded : Bounded db) (vacant : Vacant run.id node.id db)
    (mine : ∀ id now, (job id now).runId = run.id) (about : ∀ id now, (job id now).nodeId = node.id)
    (numbered : ∀ id now, (job id now).id = id) :
    (do let _ ← commit site (NodeQueue.insertJob job) : Program Unit).Solo
      (Dispatched cfg host run [node] db fun _ => 1) db := by
  obtain ⟨id, after, inserted, grown⟩ :=
    grown_insertJob stored bounded vacant mine about numbered
  have placed : (commit site (NodeQueue.insertJob job)).Solo
      (fun outcome final => outcome = .ok id ∧ final = after) db := .of_ok inserted
  refine placed.bind (fun value final ends => ?_) fun error final ends => absurd ends.1 (by nofun)
  obtain ⟨-, rfl⟩ := ends
  refine ⟨_, grown, fun job present => ⟨node, List.mem_singleton_self _, ?_⟩, rfl⟩
  rw [List.mem_singleton.mp present]
  exact (about _ _).symm

theorem enqueueNodeJob_eq {new : NodeQueue.NewJob}
    (legal : new.queue = .cpu → nonEmpty new.requiredModel = none) :
    NodeQueue.enqueueNodeJob new = NodeQueue.insertJob new.row := by
  unfold NodeQueue.enqueueNodeJob
  rw [if_neg]
  rintro ⟨cpu, declared⟩
  rw [legal cpu] at declared
  cases declared

theorem pipelineJob_legal {node : DagNode} {inputs : Dict}
    (cpu : (Dispatcher.pipelineJob node run inputs).queue = .cpu) :
    nonEmpty (Dispatcher.pipelineJob node run inputs).requiredModel = none := by
  have onCpu : node.gpu = false := by
    simpa [Dispatcher.pipelineJob, Dispatcher.queueOf] using cpu
  simp [Dispatcher.pipelineJob, Dispatcher.requiredModel, onCpu, nonEmpty]

theorem solo_enqueue_grown {node : DagNode} (stored : (db.run? run.id).isSome)
    (bounded : Bounded db) (vacant : Vacant run.id node.id db) :
    (Dispatcher.enqueue cfg host stale node run).Solo
      (Dispatched cfg host run [node] db fun _ => 1) db := by
  unfold Dispatcher.enqueue
  split
  · rw [enqueueNodeJob_eq fun _ => rfl]
    exact solo_insert stored bounded vacant (fun _ _ => rfl) (fun _ _ => rfl) fun _ _ => rfl
  · rename_i inner
    have plain : node.input = false := by simpa using inner
    have fails : ∀ error, (do
        let context ← Dispatcher.refContext host run (db.jobsOf run.id)
        Dispatcher.resolveInputs cfg context node.inputs) = .error error →
        Dispatched (α := Unit) cfg host run [node] db (fun _ => 1) (.error error) db :=
      fun error raised => ⟨[], .refl bounded, by simp, node, List.mem_singleton_self _,
        .inr ⟨plain, db.jobsOf run.id, raised⟩⟩
    refine solo_readSiblings ?_
    cases merged : Dispatcher.refContext host run (db.jobsOf run.id) with
    | error error =>
      rw [merged] at fails
      exact fails error rfl
    | ok context =>
      rw [merged] at fails
      simp only [Prog.ofExcept_ok, Prog.bind_pure']
      cases resolved : Dispatcher.resolveInputs cfg context node.inputs with
      | error error => exact fails error resolved
      | ok inputs =>
        simp only [Prog.ofExcept_ok, Prog.bind_pure', enqueueNodeJob_eq pipelineJob_legal]
        exact solo_insert stored bounded vacant (fun _ _ => rfl) (fun _ _ => rfl) fun _ _ => rfl

theorem solo_dispatchNode_grown {node : DagNode} (existing : List NodeJob)
    (stored : (db.run? run.id).isSome) (bounded : Bounded db)
    (vacant : Vacant run.id node.id db) :
    (Dispatcher.dispatchNode cfg host stale run existing node).Solo
      (Dispatched cfg host run [node] db fun _ => 1) db := by
  unfold Dispatcher.dispatchNode
  cases decided : Dispatcher.shouldSkipNode cfg node run existing with
  | error error =>
    exact ⟨[], .refl bounded, by simp, node, List.mem_singleton_self _, .inl ⟨existing, decided⟩⟩
  | ok skip =>
    cases skip with
    | true => exact solo_insert stored bounded vacant (fun _ _ => rfl) (fun _ _ => rfl) fun _ _ => rfl
    | false => exact solo_enqueue_grown stored bounded vacant

theorem solo_dispatchReady_grown (existing : List NodeJob) {ready : List DagNode}
    (distinct : (ready.map DagNode.id).Nodup) (stored : (db.run? run.id).isSome)
    (bounded : Bounded db) (vacant : ∀ node ∈ ready, Vacant run.id node.id db) :
    (Dispatcher.dispatchReady cfg host stale run existing ready).Solo
      (Dispatched cfg host run ready db id) db := by
  induction ready generalizing db with
  | nil => exact ⟨[], .refl bounded, by simp, rfl⟩
  | cons node rest ih =>
    obtain ⟨fresh, distinct⟩ := List.nodup_cons.mp distinct
    refine Solo.bind (solo_dispatchNode_grown existing stored bounded (vacant node
      List.mem_cons_self)) (fun _ middle done => ?_) fun error middle done => ?_
    · obtain ⟨new, grown, about, counted⟩ := done
      have later : ∀ other ∈ rest, Vacant run.id other.id middle := by
        intro other member job present same
        rw [grown.jobsOf] at present
        rcases List.mem_append.mp present with old | added
        · exact vacant other (List.mem_cons_of_mem _ member) job old same
        · obtain ⟨only, here, named⟩ := about job added
          rw [List.mem_singleton.mp here] at named
          exact fresh (List.mem_map.mpr ⟨other, member, (named.trans same).symm⟩)
      have known : (middle.run? run.id).isSome := by
        rw [Db.run?, grown.runs]
        exact stored
      refine (ih distinct known grown.bounded later).bind (fun inserted after more => ?_) ?_
      · refine (more.following grown about).returns ?_
        simp only [id] at counted ⊢
        omega
      · exact fun error after more => more.following grown about
    · refine done.among fun other here => ?_
      rw [List.mem_singleton.mp here]
      exact List.mem_cons_self

theorem mem_byModel {ready : List DagNode} {node : DagNode} : node ∈ byModel ready ↔ node ∈ ready :=
  List.mem_insertionSort _

theorem nodup_byModel {ready : List DagNode} (distinct : (ready.map DagNode.id).Nodup) :
    ((byModel ready).map DagNode.id).Nodup :=
  (((List.perm_insertionSort _ ready).map DagNode.id).nodup_iff).mpr distinct

theorem vacant_of_ready {node : DagNode}
    (member : node ∈ findReadyNodes nodes (db.jobsOf run.id)) : Vacant run.id node.id db := by
  have able := (List.mem_filter.mp member).2
  intro job present same
  simp only [Bool.and_eq_true, Bool.not_eq_true', List.any_eq_false, beq_iff_eq] at able
  exact able.1 job present same

theorem solo_processReady_grown {wf : Workflow} {fuel : Nat}
    (expands : Dispatcher.nodesOf cfg wf run = .ok nodes)
    (distinct : (nodes.map DagNode.id).Nodup) (stored : (db.run? run.id).isSome)
    (bounded : Bounded db)
    (enough : Cells.missing nodes ((db.jobsOf run.id).map NodeJob.cell) < fuel) :
    (Dispatcher.processReady cfg host stale wf run fuel).Solo
      (Dispatched cfg host run nodes db id) db := by
  induction fuel generalizing db with
  | zero => exact absurd enough (Nat.not_lt_zero _)
  | succ fuel ih =>
    unfold Dispatcher.processReady
    refine solo_listJobs ?_
    rw [expands]
    simp only [Prog.ofExcept_ok, Prog.bind_pure']
    split
    · exact ⟨[], .refl bounded, by simp, rfl⟩
    · rename_i some
      have able : Cells.ready nodes ((db.jobsOf run.id).map NodeJob.cell) ≠ [] := by
        simpa [Cells.ready_eq] using some
      have only : ∀ node ∈ byModel (findReadyNodes nodes (db.jobsOf run.id)), node ∈ nodes :=
        fun node member => List.mem_of_mem_filter (mem_byModel.mp member)
      have apart : ((findReadyNodes nodes (db.jobsOf run.id)).map DagNode.id).Nodup :=
        distinct.sublist (List.filter_sublist.map _)
      refine Solo.bind ((solo_dispatchReady_grown (db.jobsOf run.id) (nodup_byModel apart) stored
        bounded fun node member => vacant_of_ready (mem_byModel.mp member)).both
          (solo_dispatchReady (db.jobsOf run.id) _))
        (fun inserted middle done => ?_) fun error middle done => done.1.among only
      obtain ⟨⟨new, grown, about, counted⟩, placed⟩ := done
      rw [Cells.ready_eq] at placed
      have next := Placed.next placed
      have fewer := Cells.missing_round cfg run.context able
      have known : (middle.run? run.id).isSome := by
        rw [Db.run?, grown.runs]
        exact stored
      have known' : ∀ node ∈ byModel (findReadyNodes nodes (db.jobsOf run.id)) ++ nodes,
          node ∈ nodes := fun node member => (List.mem_append.mp member).elim (only node) id
      refine (ih known grown.bounded (by rw [next]; omega)).bind (fun more after done => ?_) ?_
      · refine ((done.following grown about).among known').returns ?_
        simp only [id] at counted ⊢
        omega
      · exact fun error after done => (done.following grown about).among known'

/-- Where nothing is ready, a node without a row has a row before it that is not
satisfied: the first of them in the order of the DAG does. -/
theorem full_or_blocked {existing : List NodeJob}
    (named : ∀ node ∈ nodes, ∀ dep ∈ node.dependsOn, ∃ other ∈ nodes, other.id = dep)
    (acyclic : Graph.Acyclic (DependsOn nodes)) (none : findReadyNodes nodes existing = []) :
    (∀ node ∈ nodes, ∃ job ∈ existing, job.nodeId = node.id) ∨
      ∃ job ∈ existing, job.status.satisfied = false := by
  by_contra neither
  obtain ⟨gap, sound⟩ := not_or.mp neither
  let bare := nodes.filter fun node => !existing.any fun job => job.nodeId == node.id
  have some : bare.map DagNode.id ≠ [] := by
    intro empty
    refine gap fun node member => ?_
    have filled := List.filter_eq_nil_iff.mp (List.map_eq_nil_iff.mp empty) node member
    simpa using filled
  obtain ⟨first, listed, least⟩ := acyclic.exists_first some
  obtain ⟨node, chosen, rfl⟩ := List.mem_map.mp listed
  obtain ⟨member, rowless⟩ := List.mem_filter.mp chosen
  have waits := List.filter_eq_nil_iff.mp none node member
  simp only [rowless, Bool.true_and, List.all_eq_true, not_forall] at waits
  obtain ⟨dep, needed, unmet⟩ := waits
  obtain ⟨before, within, rfl⟩ := named node member dep needed
  refine least before.id (List.mem_map.mpr ⟨before, List.mem_filter.mpr ⟨within, ?_⟩, rfl⟩)
    ⟨node, member, rfl, needed⟩
  rw [Bool.not_eq_true', List.any_eq_false]
  intro job present same
  refine unmet (List.any_eq_true.mpr ⟨job, present, ?_⟩)
  have satisfied : job.status.satisfied = true := by
    by_contra blocked
    exact sound ⟨job, present, by simpa using blocked⟩
  simp [satisfied, by simpa using same]

/-- **The expansion of a run reaches its fixpoint.** -/
theorem expansion_reaches_fixpoint {wf : Workflow} {fuel : Nat}
    (expands : Dispatcher.nodesOf cfg wf run = .ok nodes) (dag : WellFormedDag nodes)
    (stored : (db.run? run.id).isSome) (bounded : Bounded db) (enough : nodes.length < fuel) :
    ∃ outcome after new,
      (Dispatcher.processReady cfg host stale wf run fuel).run db = (some outcome, after) ∧
      after = { db with jobs := after.jobs, nextJob := after.nextJob } ∧
      after.jobs.rows = db.jobs.rows ++ new ∧
      (∀ job ∈ new, job.runId = run.id ∧ ∃ node ∈ nodes, node.id = job.nodeId) ∧
      (new.map NodeJob.nodeId).Nodup ∧
      match outcome with
      | .ok inserted => inserted = new.length ∧
          findReadyNodes nodes (after.jobsOf run.id) = [] ∧
          ((∀ node ∈ nodes, ∃ job ∈ after.jobsOf run.id, job.nodeId = node.id) ∨
            ∃ job ∈ after.jobsOf run.id, job.status.satisfied = false)
      | .error error => ∃ node ∈ nodes, Raises cfg host run node error := by
  have fuelled := (Cells.missing_le nodes ((db.jobsOf run.id).map NodeJob.cell)).trans_lt enough
  have grows : (Dispatcher.processReady cfg host stale wf run fuel).Solo
      (Dispatched cfg host run nodes db id) db :=
    solo_processReady_grown expands dag.distinct stored bounded fuelled
  obtain ⟨outcome, ends, ⟨new, grown, about, counted⟩, settles⟩ :=
    Transaction.Prog.solo_iff.mp (grows.both (solo_processReady expands fuelled))
  refine ⟨outcome, _, new, Prod.ext ends rfl, grown.frame, grown.rows,
    fun job present => ⟨grown.mine job present, about job present⟩, grown.nodup, ?_⟩
  cases outcome with
  | error error => exact counted
  | ok inserted =>
    obtain ⟨cells, ⟨-, added, rows, looks⟩, settled⟩ := settles
    have none : findReadyNodes nodes
        (((Dispatcher.processReady cfg host stale wf run fuel).run db).2.jobsOf run.id) = [] := by
      rw [Cells.ready_eq, rows, List.map_append, looks]
      exact settled.exhausted
    exact ⟨counted, none, full_or_blocked dag.named dag.acyclic none⟩

end Loop

/-! ### A sample -/

/-- The first branch is skipped, the second is queued, and `join` waits for both. -/
def Sample.forked : Workflow where
  steps := [
    { id := "join", kind := .pipeline, pipeline := "one", dependsOn := ["left", "right"] },
    { id := "left", kind := .pipeline, pipeline := "one", skipIf := some (.bool true) },
    { id := "right", kind := .pipeline, pipeline := "one", dependsOn := ["left"] }]

def Sample.forkedNodes : List DagNode :=
  (Dispatcher.nodesOf Sample.config Sample.forked Sample.run).toOption.getD []

theorem Sample.wellFormed_forked : WellFormedDag Sample.forkedNodes where
  distinct := by decide +kernel
  named := by decide +kernel
  acyclic := by
    refine Graph.acyclic_of_rank (fun id => ["left/n", "right/n", "join/n"].idxOf id) ?_
    rintro first second ⟨node, member, rfl, needed⟩
    have ordered : ∀ node ∈ Sample.forkedNodes, ∀ dep ∈ node.dependsOn,
        ["left/n", "right/n", "join/n"].idxOf dep < ["left/n", "right/n", "join/n"].idxOf node.id := by
      decide +kernel
    exact ordered node member first needed

theorem forked_reaches_fixpoint :
    ∃ outcome after new,
      (Dispatcher.processReady Sample.config Sample.host [] Sample.forked Sample.run 4).run
        (Sample.after [.insertRun Sample.run]).store = (some outcome, after) ∧
      after.jobs.rows = new ∧ outcome.toOption = some 2 ∧ new.length = 2 := by
  obtain ⟨outcome, after, new, ends, -, rows, -, -, counted⟩ :=
    @expansion_reaches_fixpoint Sample.config Sample.host Sample.run []
      (Sample.after [.insertRun Sample.run]).store Sample.forkedNodes Sample.forked 4 (by rfl)
      Sample.wellFormed_forked (by decide +kernel) (by unfold Bounded; decide +kernel)
      (by decide +kernel)
  have returns : outcome.toOption = some 2 := by
    have first := congrArg Prod.fst ends
    have runs : ((Dispatcher.processReady Sample.config Sample.host [] Sample.forked Sample.run 4).run
        (Sample.after [.insertRun Sample.run]).store).1.bind Except.toOption = some 2 := by
      decide +kernel
    rw [first] at runs
    exact runs
  refine ⟨outcome, after, new, ends, rows, returns, ?_⟩
  cases outcome with
  | ok inserted =>
    cases returns
    exact counted.1.symm
  | error error => cases returns

end QueueWorkflows
