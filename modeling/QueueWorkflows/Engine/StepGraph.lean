import QueueWorkflows.Engine.Fixpoint
import Mathlib.Data.List.TakeWhile

/-! The expansion of step-level dependencies. `_nodes_of` connects the leaves of one
pipeline to the dependency-free nodes of another, and nothing else across steps; what
that means for the nodes in between is a matter of paths. -/

namespace QueueWorkflows

open Relation (TransGen ReflTransGen)
open Dispatcher (nodesOf stepLeaves leavesOf expandStep expandSteps expandStepDeps expandNode)

/-- `before` is a dependency of `after` within a pipeline. -/
def SchemaBefore (schema : Schema) (before after : String) : Prop :=
  ∃ sn ∈ schema, sn.id = after ∧ before ∈ sn.dependsOn

structure SoundSchema (schema : Schema) : Prop where
  nonempty : schema ≠ []
  named : ∀ sn ∈ schema, ∀ dep ∈ sn.dependsOn, ∃ other ∈ schema, other.id = dep
  acyclic : Graph.Acyclic (SchemaBefore schema)

/-- Every pipeline of the workflow can be loaded, and is sound. -/
def SoundSchemas (cfg : Config) (steps : List WorkflowStep) : Prop :=
  ∀ step ∈ steps, step.kind = .pipeline →
    ∃ schema, cfg.pipelineSchemaLoader step.pipeline = .ok schema ∧ SoundSchema schema

/-- The nodes a step contributes to the DAG of its workflow. -/
def stepNodes (cfg : Config) (workflow : Workflow) (run : RunRow) (step : WorkflowStep) :
    Except PyErr (List DagNode) := do
  let leaves ← stepLeaves cfg workflow.steps
  expandStep cfg leaves run.outDir step

/-- The node is one of those the step contributes. -/
def Contributes (cfg : Config) (workflow : Workflow) (run : RunRow) (step : WorkflowStep)
    (node : DagNode) : Prop :=
  ∃ nodes, stepNodes cfg workflow run step = .ok nodes ∧ node ∈ nodes

/-- The node depends on `before`, directly or through other nodes. -/
def Behind (nodes : List DagNode) (before : String) (node : DagNode) : Prop :=
  ∃ dep ∈ node.dependsOn, ReflTransGen (DependsOn nodes) before dep

namespace SoundSchema

variable {schema : Schema}

theorem member_of_before {before after : String} (edge : SchemaBefore schema before after) :
    after ∈ schema.map SchemaNode.id := by
  obtain ⟨sn, member, rfl, -⟩ := edge
  exact List.mem_map_of_mem member

theorem named_before (sound : SoundSchema schema) {before after : String}
    (edge : SchemaBefore schema before after) : before ∈ schema.map SchemaNode.id := by
  obtain ⟨sn, member, -, needed⟩ := edge
  obtain ⟨other, present, rfl⟩ := sound.named sn member before needed
  exact List.mem_map_of_mem present

/-- Every node comes before a leaf, or is one. -/
theorem exists_leaf (sound : SoundSchema schema) {sn : SchemaNode} (member : sn ∈ schema) :
    ∃ leaf ∈ schema, (schema.flatMap SchemaNode.dependsOn).contains leaf.id = false ∧
      ReflTransGen (SchemaBefore schema) sn.id leaf.id := by
  obtain ⟨sink, path, last⟩ :=
    sound.acyclic.exists_sink (fun _ _ edge => member_of_before edge) sn.id
  have listed : sink ∈ schema.map SchemaNode.id := by
    rcases Relation.ReflTransGen.cases_tail path with rfl | ⟨_, -, edge⟩
    · exact List.mem_map_of_mem member
    · exact member_of_before edge
  obtain ⟨leaf, present, rfl⟩ := List.mem_map.mp listed
  refine ⟨leaf, present, ?_, path⟩
  by_contra referenced
  simp only [Bool.not_eq_false, List.contains_eq_mem, decide_eq_true_eq,
    List.mem_flatMap] at referenced
  obtain ⟨other, there, needed⟩ := referenced
  exact last other.id ⟨other, there, rfl, needed⟩

/-- Every node comes after one without dependencies, or is one. -/
theorem exists_source (sound : SoundSchema schema) {sn : SchemaNode} (member : sn ∈ schema) :
    ∃ source ∈ schema, source.dependsOn = [] ∧
      ReflTransGen (SchemaBefore schema) source.id sn.id := by
  obtain ⟨start, path, first⟩ :=
    sound.acyclic.exists_source (fun _ _ edge => sound.named_before edge) sn.id
  have listed : start ∈ schema.map SchemaNode.id := by
    rcases Relation.ReflTransGen.cases_head path with rfl | ⟨_, edge, -⟩
    · exact List.mem_map_of_mem member
    · exact sound.named_before edge
  obtain ⟨source, present, rfl⟩ := List.mem_map.mp listed
  refine ⟨source, present, ?_, path⟩
  rw [List.eq_nil_iff_forall_not_mem]
  exact fun dep needed => first dep ⟨source, present, rfl, needed⟩

theorem leavesOf_eq (sound : SoundSchema schema) (sid : String) :
    leavesOf sid schema = .ok ((schema.filter fun sn =>
      !(schema.flatMap SchemaNode.dependsOn).contains sn.id).map fun sn => sid ++ "/" ++ sn.id) := by
  obtain ⟨sn, member⟩ := List.exists_mem_of_ne_nil _ sound.nonempty
  obtain ⟨leaf, present, unreferenced, -⟩ := sound.exists_leaf member
  unfold leavesOf
  simp only
  rw [if_neg]
  rw [List.isEmpty_iff, List.map_eq_nil_iff, List.filter_eq_nil_iff]
  exact fun none => none leaf present (by rw [unreferenced]; rfl)

end SoundSchema

section Leaves

variable {cfg : Config} {steps : List WorkflowStep} {leaves : List (String × List String)}

/-- What `step_leaves` holds for a step: nothing for one that has no nodes. -/
def leafEntry (cfg : Config) (step : WorkflowStep) (ids : List String) : Prop :=
  match step.kind with
  | .input => ids = [step.id]
  | .other => False
  | .pipeline => ∃ schema, cfg.pipelineSchemaLoader step.pipeline = .ok schema ∧
      leavesOf step.id schema = .ok ids

theorem leafEntry_unique {step : WorkflowStep} {first second : List String}
    (one : leafEntry cfg step first) (two : leafEntry cfg step second) : first = second := by
  unfold leafEntry at one two
  cases kind : step.kind with
  | input =>
    rw [kind] at one two
    exact one.trans two.symm
  | other =>
    rw [kind] at one
    exact one.elim
  | pipeline =>
    rw [kind] at one two
    obtain ⟨schema, loaded, ends⟩ := one
    obtain ⟨other, again, same⟩ := two
    cases loaded.symm.trans again
    exact Except.ok.inj (ends.symm.trans same)

theorem stepLeaves_cons {step : WorkflowStep}
    (found : stepLeaves cfg (step :: steps) = .ok leaves) :
    ∃ rest, stepLeaves cfg steps = .ok rest ∧
      ((∃ ids, leafEntry cfg step ids ∧ leaves = (step.id, ids) :: rest) ∨
        (∀ ids, ¬ leafEntry cfg step ids) ∧ leaves = rest) := by
  unfold stepLeaves at found
  unfold leafEntry
  cases kind : step.kind with
  | input =>
    simp only [kind] at found ⊢
    cases others : stepLeaves cfg steps with
    | error error =>
      rw [others] at found
      cases found
    | ok rest =>
      rw [others] at found
      cases found
      exact ⟨rest, rfl, .inl ⟨_, rfl, rfl⟩⟩
  | other =>
    simp only [kind] at found ⊢
    exact ⟨leaves, found, .inr ⟨fun _ => id, rfl⟩⟩
  | pipeline =>
    simp only [kind, bind, Except.bind] at found ⊢
    cases loaded : cfg.pipelineSchemaLoader step.pipeline with
    | error error => simp [loaded] at found
    | ok schema =>
      rw [loaded] at found
      simp only at found
      cases ends : leavesOf step.id schema with
      | error error => simp [ends] at found
      | ok ids =>
        rw [ends] at found
        simp only at found
        cases others : stepLeaves cfg steps with
        | error error => simp [others] at found
        | ok rest =>
          rw [others] at found
          cases found
          exact ⟨rest, rfl, .inl ⟨ids, ⟨schema, rfl, ends⟩, rfl⟩⟩

theorem mem_stepLeaves (found : stepLeaves cfg steps = .ok leaves) {name : String}
    {ids : List String} :
    (name, ids) ∈ leaves ↔ ∃ step ∈ steps, step.id = name ∧ leafEntry cfg step ids := by
  induction steps generalizing leaves with
  | nil =>
    cases found
    simp
  | cons step steps ih =>
    obtain ⟨rest, others, ⟨entry, mine, rfl⟩ | ⟨none, rfl⟩⟩ := stepLeaves_cons found
    · simp only [List.mem_cons, exists_eq_or_imp, ih others, Prod.mk.injEq]
      refine or_congr_left ⟨?_, ?_⟩
      · rintro ⟨rfl, rfl⟩
        exact ⟨rfl, mine⟩
      · rintro ⟨rfl, also⟩
        exact ⟨rfl, leafEntry_unique also mine⟩
    · simp [none, ih others]

theorem keys_stepLeaves (found : stepLeaves cfg steps = .ok leaves) :
    (leaves.map Prod.fst).Sublist (steps.map WorkflowStep.id) := by
  induction steps generalizing leaves with
  | nil =>
    cases found
    exact .slnil
  | cons step steps ih =>
    obtain ⟨rest, others, ⟨entry, -, rfl⟩ | ⟨-, rfl⟩⟩ := stepLeaves_cons found
    · exact (ih others).cons_cons _
    · exact (ih others).cons _

theorem lookup_of_mem {entries : List (String × List String)} {name : String} {ids : List String}
    (distinct : (entries.map Prod.fst).Nodup) (present : (name, ids) ∈ entries) :
    entries.lookup name = some ids := by
  obtain ⟨front, back, rfl⟩ := List.append_of_mem present
  refine List.lookup_eq_some_iff.mpr ⟨front, back, rfl, fun entry earlier => ?_⟩
  rw [List.map_append, List.map_cons] at distinct
  have apart := (List.nodup_append.mp distinct).2.2 entry.1 (List.mem_map_of_mem earlier) name
    List.mem_cons_self
  simpa using apart.symm

/-- What an entry of a step's `depends_on` expands to. -/
theorem mem_expandStepDeps (distinct : (steps.map WorkflowStep.id).Nodup)
    (found : stepLeaves cfg steps = .ok leaves) {deps : List String} {id : String} :
    id ∈ expandStepDeps leaves deps ↔ ∃ dep ∈ deps,
      (∃ step ∈ steps, step.id = dep ∧ ∃ ids, leafEntry cfg step ids ∧ id ∈ ids) ∨
        id = dep ∧ ∀ step ∈ steps, step.id = dep → ∀ ids, ¬ leafEntry cfg step ids := by
  have keys : (leaves.reverse.map Prod.fst).Nodup := by
    rw [List.map_reverse, List.nodup_reverse]
    exact distinct.sublist (keys_stepLeaves found)
  unfold expandStepDeps
  rw [List.mem_flatMap]
  refine exists_congr fun dep => and_congr_right fun _ => ?_
  by_cases known : ∃ step ∈ steps, step.id = dep ∧ ∃ ids, leafEntry cfg step ids
  · obtain ⟨step, member, rfl, ids, entry⟩ := known
    have listed : (step.id, ids) ∈ leaves.reverse :=
      List.mem_reverse.mpr ((mem_stepLeaves found).mpr ⟨step, member, rfl, entry⟩)
    rw [lookup_of_mem keys listed, Option.getD_some]
    constructor
    · exact fun present => .inl ⟨step, member, rfl, ids, entry, present⟩
    · rintro (⟨other, there, same, more, also, present⟩ | ⟨-, none⟩)
      · cases List.inj_on_of_nodup_map distinct there member same
        rwa [leafEntry_unique entry also]
      · exact absurd entry (none step member rfl ids)
  · have absent : leaves.reverse.lookup dep = none := by
      rw [List.lookup_eq_none_iff]
      rintro ⟨name, ids⟩ present
      obtain ⟨step, member, rfl, entry⟩ :=
        (mem_stepLeaves found).mp (List.mem_reverse.mp present)
      rw [bne_iff_ne]
      rintro rfl
      exact known ⟨step, member, rfl, ids, entry⟩
    rw [absent, Option.getD_none, List.mem_singleton]
    constructor
    · exact fun same => .inr ⟨same, fun step member named ids entry =>
        known ⟨step, member, named, ids, entry⟩⟩
    · rintro (⟨step, member, named, ids, entry, -⟩ | ⟨same, -⟩)
      · exact absurd ⟨step, member, named, ids, entry⟩ known
      · exact same

end Leaves

section Expand

variable {cfg : Config} {workflow : Workflow} {run : RunRow} {step : WorkflowStep}
  {steps : List WorkflowStep} {leaves : List (String × List String)} {node : DagNode}
  {dag : List DagNode}

theorem stepLeaves_ok (sound : SoundSchemas cfg steps) : ∃ leaves, stepLeaves cfg steps = .ok leaves := by
  induction steps with
  | nil => exact ⟨[], rfl⟩
  | cons step steps ih =>
    obtain ⟨rest, others⟩ := ih fun other member => sound other (List.mem_cons_of_mem _ member)
    unfold stepLeaves
    cases kind : step.kind with
    | input =>
      rw [others]
      exact ⟨_, rfl⟩
    | other => exact ⟨rest, others⟩
    | pipeline =>
      obtain ⟨schema, loaded, fine⟩ := sound step List.mem_cons_self kind
      rw [loaded, others]
      simp only [bind, Except.bind, fine.leavesOf_eq]
      exact ⟨_, rfl⟩

theorem contributes_iff (found : stepLeaves cfg workflow.steps = .ok leaves) :
    Contributes cfg workflow run step node ↔
      ∃ nodes, expandStep cfg leaves run.outDir step = .ok nodes ∧ node ∈ nodes := by
  unfold Contributes stepNodes
  rw [found]
  rfl

/-- The node of an input step, or one for each node of a pipeline. -/
theorem contributes_cases (found : stepLeaves cfg workflow.steps = .ok leaves) :
    Contributes cfg workflow run step node ↔
      step.kind = .input ∧ node = {
        id := step.id, input := true, widget := step.widget, target := step.target,
        dependsOn := expandStepDeps leaves step.dependsOn, skipIf := step.skipIf } ∨
      step.kind = .pipeline ∧ ∃ schema, cfg.pipelineSchemaLoader step.pipeline = .ok schema ∧
        ∃ sn ∈ schema, node =
          expandNode cfg step (expandStepDeps leaves step.dependsOn) run.outDir sn := by
  rw [contributes_iff found]
  unfold expandStep
  cases kind : step.kind with
  | input => simp
  | other => simp
  | pipeline =>
    cases loaded : cfg.pipelineSchemaLoader step.pipeline with
    | error error => simp [bind, Except.bind]
    | ok schema => simp [bind, Except.bind, pure, Except.pure, eq_comm]

theorem expandSteps_ok (sound : SoundSchemas cfg steps) :
    ∃ dag, expandSteps cfg leaves run.outDir steps = .ok dag ∧ ∀ node, node ∈ dag ↔
      ∃ step ∈ steps, ∃ nodes, expandStep cfg leaves run.outDir step = .ok nodes ∧ node ∈ nodes := by
  induction steps with
  | nil => exact ⟨[], rfl, by simp⟩
  | cons step steps ih =>
    obtain ⟨rest, others, listed⟩ := ih fun other member => sound other (List.mem_cons_of_mem _ member)
    have first : ∃ nodes, expandStep cfg leaves run.outDir step = .ok nodes := by
      unfold expandStep
      cases kind : step.kind with
      | input => exact ⟨_, rfl⟩
      | other => exact ⟨_, rfl⟩
      | pipeline =>
        obtain ⟨schema, loaded, -⟩ := sound step List.mem_cons_self kind
        rw [loaded]
        exact ⟨_, rfl⟩
    obtain ⟨nodes, expanded⟩ := first
    refine ⟨nodes ++ rest, ?_, fun node => ?_⟩
    · unfold expandSteps
      rw [expanded, others]
      rfl
    · simp [listed, expanded]

/-- The DAG of a workflow is what its steps contribute. -/
theorem nodesOf_ok (sound : SoundSchemas cfg workflow.steps) :
    ∃ leaves dag, stepLeaves cfg workflow.steps = .ok leaves ∧ nodesOf cfg workflow run = .ok dag ∧
      ∀ node, node ∈ dag ↔ ∃ step ∈ workflow.steps, Contributes cfg workflow run step node := by
  obtain ⟨leaves, found⟩ := stepLeaves_ok sound
  obtain ⟨dag, expands, listed⟩ := @expandSteps_ok cfg run workflow.steps leaves sound
  refine ⟨leaves, dag, found, ?_, fun node => ?_⟩
  · unfold nodesOf
    rw [found]
    exact expands
  · rw [listed]
    exact exists_congr fun step => and_congr_right fun _ => (contributes_iff found).symm

/-- A dependency within a pipeline is one between the nodes it expands to. -/
theorem dependsOn_of_before (found : stepLeaves cfg workflow.steps = .ok leaves)
    (listed : ∀ node, node ∈ dag ↔ ∃ step ∈ workflow.steps, Contributes cfg workflow run step node)
    (member : step ∈ workflow.steps) (kind : step.kind = .pipeline) {schema : Schema}
    (loaded : cfg.pipelineSchemaLoader step.pipeline = .ok schema) {before after : String}
    (edge : SchemaBefore schema before after) :
    DependsOn dag (step.id ++ "/" ++ before) (step.id ++ "/" ++ after) := by
  obtain ⟨sn, present, rfl, needed⟩ := edge
  refine ⟨_, (listed _).mpr ⟨step, member, (contributes_cases found).mpr
    (.inr ⟨kind, schema, loaded, sn, present, rfl⟩)⟩, rfl, ?_⟩
  have some : sn.dependsOn.isEmpty = false := by
    simpa using List.ne_nil_of_mem needed
  simp only [expandNode, some]
  exact List.mem_map_of_mem needed

/-- Every node of a step comes before one of its leaves, or is one. -/
theorem reaches_leaf (sound : SoundSchemas cfg workflow.steps)
    (found : stepLeaves cfg workflow.steps = .ok leaves)
    (listed : ∀ node, node ∈ dag ↔ ∃ step ∈ workflow.steps, Contributes cfg workflow run step node)
    (member : step ∈ workflow.steps) (mine : Contributes cfg workflow run step node) :
    ∃ ids, leafEntry cfg step ids ∧ ∃ leaf ∈ ids, ReflTransGen (DependsOn dag) node.id leaf := by
  unfold leafEntry
  rcases (contributes_cases found).mp mine with ⟨kind, rfl⟩ | ⟨kind, schema, loaded, sn, present, rfl⟩
  · rw [kind]
    exact ⟨_, rfl, step.id, List.mem_singleton_self _, .refl⟩
  · rw [kind]
    obtain ⟨other, again, fine⟩ := sound step member kind
    cases loaded.symm.trans again
    obtain ⟨leaf, there, unreferenced, path⟩ := fine.exists_leaf present
    refine ⟨_, ⟨schema, loaded, fine.leavesOf_eq step.id⟩, step.id ++ "/" ++ leaf.id, ?_, ?_⟩
    · exact List.mem_map.mpr ⟨leaf, List.mem_filter.mpr ⟨there, by rw [unreferenced]; rfl⟩, rfl⟩
    · exact path.lift (fun id => step.id ++ "/" ++ id) fun _ _ edge =>
        dependsOn_of_before found listed member kind loaded edge

/-- Every node of a step is behind what the step depends on. -/
theorem behind_stepDeps (sound : SoundSchemas cfg workflow.steps)
    (found : stepLeaves cfg workflow.steps = .ok leaves)
    (listed : ∀ node, node ∈ dag ↔ ∃ step ∈ workflow.steps, Contributes cfg workflow run step node)
    (member : step ∈ workflow.steps) (mine : Contributes cfg workflow run step node) {dep : String}
    (needed : dep ∈ expandStepDeps leaves step.dependsOn) : Behind dag dep node := by
  rcases (contributes_cases found).mp mine with ⟨kind, rfl⟩ | ⟨kind, schema, loaded, sn, present, rfl⟩
  · exact ⟨dep, needed, .refl⟩
  · obtain ⟨other, again, fine⟩ := sound step member kind
    cases loaded.symm.trans again
    cases first : sn.dependsOn with
    | nil =>
      refine ⟨dep, ?_, .refl⟩
      simpa [expandNode, first] using needed
    | cons inner rest =>
      obtain ⟨previous, there, rfl⟩ := fine.named sn present inner (by simp [first])
      obtain ⟨source, here, free, path⟩ := fine.exists_source there
      refine ⟨step.id ++ "/" ++ previous.id, by simp [expandNode, first], ?_⟩
      have entry : DependsOn dag dep (step.id ++ "/" ++ source.id) := by
        refine ⟨_, (listed _).mpr ⟨step, member, (contributes_cases found).mpr
          (.inr ⟨kind, schema, loaded, source, here, rfl⟩)⟩, rfl, ?_⟩
        simpa [expandNode, free] using needed
      refine .head entry (path.lift (fun id => step.id ++ "/" ++ id) fun _ _ edge => ?_)
      exact dependsOn_of_before found listed member kind loaded edge

end Expand

/-! ### Cycles -/

/-- A step lists another one in its `depends_on`. -/
def StepDependsOn (steps : List WorkflowStep) (before after : String) : Prop :=
  ∃ step ∈ steps, step.id = after ∧ before ∈ step.dependsOn

/-- An entry that is no step with nodes is taken for the id of a node; if it is one,
the step depends on the step of that node. -/
def StepBefore (cfg : Config) (workflow : Workflow) (run : RunRow) (before after : String) : Prop :=
  StepDependsOn workflow.steps before after ∨
    ∃ dep, StepDependsOn workflow.steps dep after ∧
      (∀ other ∈ workflow.steps, other.id = dep →
        ∀ node, ¬ Contributes cfg workflow run other node) ∧
      ∃ owner ∈ workflow.steps, owner.id = before ∧
        ∃ node, Contributes cfg workflow run owner node ∧ node.id = dep

/-- No two steps expand to the same node id. -/
def Apart (cfg : Config) (workflow : Workflow) (run : RunRow) : Prop :=
  ∀ first ∈ workflow.steps, ∀ second ∈ workflow.steps, ∀ one other,
    Contributes cfg workflow run first one → Contributes cfg workflow run second other →
      one.id = other.id → first.id = second.id

section Cycles

variable {cfg : Config} {workflow : Workflow} {run : RunRow} {step : WorkflowStep}
  {leaves : List (String × List String)} {node : DagNode} {dag : List DagNode}

/-- The step a node id belongs to; an id that no step expands to stands for itself. -/
noncomputable def placeOf (cfg : Config) (workflow : Workflow) (run : RunRow) (id : String) :
    String :=
  open Classical in
  if owned : ∃ step ∈ workflow.steps, ∃ node, Contributes cfg workflow run step node ∧ node.id = id
  then owned.choose.id else id

theorem placeOf_owned (apart : Apart cfg workflow run) (member : step ∈ workflow.steps)
    (mine : Contributes cfg workflow run step node) :
    placeOf cfg workflow run node.id = step.id := by
  have owned : ∃ step ∈ workflow.steps, ∃ other,
      Contributes cfg workflow run step other ∧ other.id = node.id :=
    ⟨step, member, node, mine, rfl⟩
  unfold placeOf
  rw [dif_pos owned]
  obtain ⟨there, other, theirs, same⟩ := owned.choose_spec
  exact apart _ there step member other node theirs mine same

/-- The edges within the pipeline of one step. -/
def InStep (cfg : Config) (steps : List WorkflowStep) (spot : String) (before after : String) :
    Prop :=
  ∃ step ∈ steps, step.id = spot ∧ ∃ schema, step.kind = .pipeline ∧
    cfg.pipelineSchemaLoader step.pipeline = .ok schema ∧
    Relation.Map (SchemaBefore schema) (fun id => step.id ++ "/" ++ id)
      (fun id => step.id ++ "/" ++ id) before after

theorem acyclic_within {steps : List WorkflowStep} (distinct : (steps.map WorkflowStep.id).Nodup)
    (sound : SoundSchemas cfg steps) (spot : String) : Graph.Acyclic (InStep cfg steps spot) := by
  intro vertex cycle
  obtain ⟨_, ⟨step, member, rfl, schema, kind, loaded, -⟩, -⟩ :=
    Relation.TransGen.head'_iff.mp cycle
  obtain ⟨other, again, fine⟩ := sound step member kind
  cases loaded.symm.trans again
  have injective : Function.Injective fun id => step.id ++ "/" ++ id :=
    fun first second same => (String.append_right_inj _).mp same
  refine fine.acyclic.map injective vertex (TransGen.mono ?_ vertex vertex cycle)
  rintro before after ⟨same, there, named, plan, -, loads, edge⟩
  cases List.inj_on_of_nodup_map distinct there member named
  cases loaded.symm.trans loads
  exact edge

/-- An id among the leaves of a step is the id of a node of it. -/
theorem contributes_of_leaf (run : RunRow) (found : stepLeaves cfg workflow.steps = .ok leaves)
    (sound : SoundSchemas cfg workflow.steps) (member : step ∈ workflow.steps) {ids : List String}
    {id : String} (entry : leafEntry cfg step ids) (present : id ∈ ids) :
    ∃ node, Contributes cfg workflow run step node ∧ node.id = id := by
  unfold leafEntry at entry
  cases kind : step.kind with
  | input =>
    rw [kind] at entry
    rw [entry, List.mem_singleton] at present
    exact ⟨_, (contributes_cases found).mpr (.inl ⟨kind, rfl⟩), present.symm⟩
  | other =>
    rw [kind] at entry
    exact entry.elim
  | pipeline =>
    rw [kind] at entry
    obtain ⟨schema, loaded, ends⟩ := entry
    obtain ⟨other, again, fine⟩ := sound step member kind
    cases loaded.symm.trans again
    cases ends.symm.trans (fine.leavesOf_eq step.id)
    obtain ⟨sn, leaf, rfl⟩ := List.mem_map.mp present
    exact ⟨_, (contributes_cases found).mpr
      (.inr ⟨kind, schema, loaded, sn, List.mem_of_mem_filter leaf, rfl⟩), rfl⟩

/-- A step that contributes a node has leaves. -/
theorem not_contributes (found : stepLeaves cfg workflow.steps = .ok leaves)
    (sound : SoundSchemas cfg workflow.steps) (member : step ∈ workflow.steps)
    (none : ∀ ids, ¬ leafEntry cfg step ids) : ¬ Contributes cfg workflow run step node := by
  intro mine
  unfold leafEntry at none
  rcases (contributes_cases found).mp mine with ⟨kind, -⟩ | ⟨kind, schema, loaded, -⟩
  · rw [kind] at none
    exact none _ rfl
  · rw [kind] at none
    obtain ⟨other, again, fine⟩ := sound step member kind
    cases loaded.symm.trans again
    exact none _ ⟨schema, loaded, fine.leavesOf_eq step.id⟩

/-- What a step depends on lies in a step before it. -/
theorem stepBefore_place (distinct : (workflow.steps.map WorkflowStep.id).Nodup)
    (found : stepLeaves cfg workflow.steps = .ok leaves)
    (sound : SoundSchemas cfg workflow.steps) (apart : Apart cfg workflow run)
    (member : step ∈ workflow.steps) {id : String}
    (needed : id ∈ expandStepDeps leaves step.dependsOn) :
    StepBefore cfg workflow run (placeOf cfg workflow run id) step.id := by
  obtain ⟨dep, listed, ⟨owner, there, rfl, ids, entry, present⟩ | ⟨rfl, none⟩⟩ :=
    (mem_expandStepDeps distinct found).mp needed
  · obtain ⟨node, mine, rfl⟩ := contributes_of_leaf run found sound there entry present
    rw [placeOf_owned apart there mine]
    exact .inl ⟨step, member, rfl, listed⟩
  · by_cases owned : ∃ owner ∈ workflow.steps, ∃ node,
        Contributes cfg workflow run owner node ∧ node.id = id
    · obtain ⟨owner, there, node, mine, rfl⟩ := owned
      rw [placeOf_owned apart there mine]
      refine .inr ⟨node.id, ⟨step, member, rfl, listed⟩, ?_, owner, there, rfl, node, mine, rfl⟩
      exact fun other here same _ => not_contributes found sound here (none other here same)
    · rw [placeOf, dif_neg owned]
      exact .inl ⟨step, member, rfl, listed⟩

theorem acyclic_dag (distinct : (workflow.steps.map WorkflowStep.id).Nodup)
    (found : stepLeaves cfg workflow.steps = .ok leaves)
    (sound : SoundSchemas cfg workflow.steps)
    (listed : ∀ node, node ∈ dag ↔ ∃ step ∈ workflow.steps, Contributes cfg workflow run step node)
    (apart : Apart cfg workflow run) (outer : Graph.Acyclic (StepBefore cfg workflow run)) :
    Graph.Acyclic (DependsOn dag) := by
  refine outer.nested (placeOf cfg workflow run) (acyclic_within distinct sound) ?_
  rintro before after ⟨node, member, rfl, needed⟩
  obtain ⟨step, there, mine⟩ := (listed node).mp member
  rw [placeOf_owned apart there mine]
  rcases (contributes_cases found).mp mine with ⟨kind, rfl⟩ | ⟨kind, schema, loaded, sn, present, rfl⟩
  · exact .inl (stepBefore_place distinct found sound apart there needed)
  · cases first : sn.dependsOn with
    | nil =>
      refine .inl (stepBefore_place distinct found sound apart there ?_)
      simpa [expandNode, first] using needed
    | cons inner rest =>
      simp only [expandNode, first, List.isEmpty_cons, Bool.false_eq_true, if_false] at needed
      obtain ⟨dep, within, rfl⟩ := List.mem_map.mp needed
      obtain ⟨other, again, fine⟩ := sound step there kind
      cases loaded.symm.trans again
      have inside : dep ∈ sn.dependsOn := first ▸ within
      obtain ⟨previous, here, rfl⟩ := fine.named sn present dep inside
      have mine' : Contributes cfg workflow run step
          (expandNode cfg step (expandStepDeps leaves step.dependsOn) run.outDir previous) :=
        (contributes_cases found).mpr (.inr ⟨kind, schema, loaded, previous, here, rfl⟩)
      refine .inr ⟨placeOf_owned apart there mine', ?_⟩
      rw [show step.id ++ "/" ++ previous.id =
        (expandNode cfg step (expandStepDeps leaves step.dependsOn) run.outDir previous).id from rfl,
        placeOf_owned apart there mine']
      exact ⟨step, there, rfl, schema, kind, loaded, previous.id, sn.id,
        ⟨sn, present, rfl, inside⟩, rfl, rfl⟩

/-- **The expansion of step dependencies.** Where step `B` depends on step `A`, every node
of `B` is behind every node of `A`; and the DAG is acyclic if the steps are. -/
theorem step_dependencies_expand (distinct : (workflow.steps.map WorkflowStep.id).Nodup)
    (sound : SoundSchemas cfg workflow.steps) :
    ∃ dag, nodesOf cfg workflow run = .ok dag ∧
      (∀ node, node ∈ dag ↔ ∃ step ∈ workflow.steps, Contributes cfg workflow run step node) ∧
      (∀ first ∈ workflow.steps, ∀ second ∈ workflow.steps, first.id ∈ second.dependsOn →
        ∀ before after, Contributes cfg workflow run first before →
          Contributes cfg workflow run second after → Behind dag before.id after) ∧
      (Apart cfg workflow run → Graph.Acyclic (StepBefore cfg workflow run) →
        Graph.Acyclic (DependsOn dag)) := by
  obtain ⟨leaves, dag, found, expands, listed⟩ := @nodesOf_ok cfg workflow run sound
  refine ⟨dag, expands, listed, ?_, acyclic_dag distinct found sound listed⟩
  intro first member second there needed before after mine theirs
  obtain ⟨ids, entry, leaf, present, path⟩ := reaches_leaf sound found listed member mine
  have among : leaf ∈ expandStepDeps leaves second.dependsOn :=
    (mem_expandStepDeps distinct found).mpr
      ⟨first.id, needed, .inl ⟨first, member, rfl, ids, entry, present⟩⟩
  obtain ⟨dep, listed', rest⟩ := behind_stepDeps sound found listed there theirs among
  exact ⟨dep, listed', path.trans rest⟩

/-- Where every dependency is a step with nodes, only steps depend on steps. -/
theorem dependsOn_of_stepBefore {before after : String}
    (named : ∀ step ∈ workflow.steps, ∀ dep ∈ step.dependsOn, ∃ other ∈ workflow.steps,
      other.id = dep ∧ ∃ node, Contributes cfg workflow run other node)
    (edge : StepBefore cfg workflow run before after) :
    StepDependsOn workflow.steps before after := by
  rcases edge with plain | ⟨dep, ⟨step, member, rfl, needed⟩, none, -⟩
  · exact plain
  · obtain ⟨other, there, same, node, theirs⟩ := named step member dep needed
    exact absurd theirs (none other there same node)

/-- Node ids of different steps are apart where no step id has a slash. -/
theorem apart_of_slashFree (sound : SoundSchemas cfg workflow.steps)
    (slashFree : ∀ step ∈ workflow.steps, '/' ∉ step.id.toList) : Apart cfg workflow run := by
  obtain ⟨leaves, found⟩ := stepLeaves_ok sound
  have front : ∀ step ∈ workflow.steps, ∀ node, Contributes cfg workflow run step node →
      node.id.toList.takeWhile (· != '/') = step.id.toList := by
    intro step member node mine
    have plain : ∀ char ∈ step.id.toList, (char != '/') = true := by
      intro char present
      rw [bne_iff_ne]
      rintro rfl
      exact slashFree step member present
    rcases (contributes_cases found).mp mine with ⟨-, rfl⟩ | ⟨-, schema, -, sn, -, rfl⟩
    · exact List.takeWhile_eq_self_iff.mpr plain
    · simp only [expandNode, String.toList_append, List.append_assoc]
      rw [List.takeWhile_append_of_pos plain]
      simp
  intro first member second there one other mine theirs same
  have both := front first member one mine
  rw [same, front second there other theirs] at both
  exact (String.toList_inj.mp both).symm

end Cycles

/-! ### Samples -/

/-- Two nodes, one behind the other. -/
def Sample.layered : Config :=
  { Sample.config with
    pipelineSchemaLoader := fun _ => .ok [{ id := "a" }, { id := "b", dependsOn := ["a"] }] }

def Sample.chained : Workflow where
  steps := [
    { id := "ask", kind := .input },
    { id := "left", kind := .pipeline, dependsOn := ["ask"] },
    { id := "right", kind := .pipeline, dependsOn := ["left"] }]

theorem Sample.sound_layered (steps : List WorkflowStep) : SoundSchemas Sample.layered steps := by
  refine fun step _ _ => ⟨_, rfl, by simp, by decide, Graph.acyclic_of_rank
    (fun id => ["a", "b"].idxOf id) ?_⟩
  rintro before after ⟨sn, member, rfl, needed⟩
  simp only [List.mem_cons, List.not_mem_nil, or_false] at member
  rcases member with rfl | rfl
  · cases needed
  · cases List.mem_singleton.mp needed
    decide

def Sample.left : DagNode where
  id := "left/a"
  input := false
  node := "a"
  dependsOn := ["ask"]
  pipelineName := some ""

theorem chained_expands :
    ∃ dag, nodesOf Sample.layered Sample.chained Sample.run = .ok dag ∧
      Graph.Acyclic (DependsOn dag) ∧ Sample.left ∈ dag ∧
      ∀ node, Contributes Sample.layered Sample.chained Sample.run
        { id := "right", kind := .pipeline, dependsOn := ["left"] } node →
          Behind dag "left/a" node := by
  have apart : Apart Sample.layered Sample.chained Sample.run :=
    apart_of_slashFree (Sample.sound_layered _) (by decide)
  obtain ⟨dag, expands, listed, behind, acyclic⟩ := @step_dependencies_expand Sample.layered
    Sample.chained Sample.run (by decide) (Sample.sound_layered _)
  have left : Contributes Sample.layered Sample.chained Sample.run
      { id := "left", kind := .pipeline, dependsOn := ["ask"] } Sample.left := by
    exact ⟨_, rfl, List.mem_cons_self⟩
  refine ⟨dag, expands, acyclic apart ?_, ?_, fun node mine => ?_⟩
  · refine Graph.acyclic_of_rank (fun id => ["ask", "left", "right"].idxOf id) ?_
    intro before after edge
    obtain ⟨step, member, rfl, needed⟩ := dependsOn_of_stepBefore (by
      intro step member dep needed
      simp only [Sample.chained, List.mem_cons, List.not_mem_nil, or_false] at member
      rcases member with rfl | rfl | rfl
      · cases needed
      · cases List.mem_singleton.mp needed
        exact ⟨_, List.mem_cons_self, rfl, _, _, rfl, List.mem_cons_self⟩
      · cases List.mem_singleton.mp needed
        exact ⟨_, List.mem_cons_of_mem _ List.mem_cons_self, rfl, _, left⟩) edge
    have ordered : ∀ step ∈ Sample.chained.steps, ∀ dep ∈ step.dependsOn,
        ["ask", "left", "right"].idxOf dep < ["ask", "left", "right"].idxOf step.id := by
      decide
    exact ordered step member before needed
  · exact (listed _).mpr ⟨_, List.mem_cons_of_mem _ List.mem_cons_self, left⟩
  · exact behind _ (List.mem_cons_of_mem _ List.mem_cons_self) _
      (List.mem_cons_of_mem _ (List.mem_cons_of_mem _ List.mem_cons_self)) List.mem_cons_self
      Sample.left node left mine

/-- `late` depends on a node of `early`, and `early` on the step `late`. -/
def Sample.looped : Workflow where
  steps := [
    { id := "early", kind := .pipeline, dependsOn := ["late"] },
    { id := "late", kind := .pipeline, dependsOn := ["early/n"] }]

theorem node_dependency_closes_cycle :
    ∃ dag, nodesOf Sample.config Sample.looped Sample.run = .ok dag ∧
      (Sample.looped.steps.map WorkflowStep.id).Nodup ∧
      SoundSchemas Sample.config Sample.looped.steps ∧
      Graph.Acyclic (StepDependsOn Sample.looped.steps) ∧ ¬ Graph.Acyclic (DependsOn dag) := by
  refine ⟨_, rfl, by decide, fun step _ _ => ⟨_, rfl, by simp, by decide, ?_⟩, ?_, ?_⟩
  · refine Graph.acyclic_of_rank (fun _ => 0) ?_
    rintro before after ⟨sn, member, -, needed⟩
    cases List.mem_singleton.mp member
    cases needed
  · refine Graph.acyclic_of_rank (fun id => ["early/n", "late", "early"].idxOf id) ?_
    rintro before after ⟨step, member, rfl, needed⟩
    have ordered : ∀ step ∈ Sample.looped.steps, ∀ dep ∈ step.dependsOn,
        ["early/n", "late", "early"].idxOf dep < ["early/n", "late", "early"].idxOf step.id := by
      decide
    exact ordered step member before needed
  · intro acyclic
    refine acyclic "early/n" (.tail (b := "late/n") (.single ⟨_, List.mem_cons_of_mem _
      List.mem_cons_self, rfl, ?_⟩) ⟨_, List.mem_cons_self, rfl, ?_⟩)
    · exact List.mem_cons_self
    · exact List.mem_cons_self

end QueueWorkflows
