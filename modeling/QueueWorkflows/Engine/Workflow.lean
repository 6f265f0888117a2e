import QueueWorkflows.Engine.Store

/-! Workflow and pipeline definitions, and their expansion into the node DAG
(`dispatcher._nodes_of`). The definitions come from host-injected loaders. -/

namespace QueueWorkflows

structure SchemaInput where
  name : String
  source : String := ""

/-- One entry of a pipeline schema's `nodes`. -/
structure SchemaNode where
  id : String
  node : Option String := none
  dependsOn : List String := []
  gpu : Bool := false
  model : Option String := none
  inputs : List SchemaInput := []
  skipIf : Option Json := none

abbrev Schema := List SchemaNode

inductive StepKind where
  | input
  | pipeline
  | other
deriving DecidableEq

/-- One entry of a workflow's `steps`. `extra` holds the widget's own fields. -/
structure WorkflowStep where
  id : String
  kind : StepKind
  widget : String := ""
  target : Option String := none
  dependsOn : List String := []
  inputs : Dict := []
  pipeline : String := ""
  skipIf : Option Json := none
  extra : Dict := []

structure Workflow where
  steps : List WorkflowStep

/-- A node of the expanded DAG. `input` is the node's `kind`. -/
structure DagNode where
  id : String
  input : Bool
  widget : String := ""
  target : Option String := none
  node : String := ""
  dependsOn : List String
  gpu : Bool := false
  model : Option String := none
  inputs : Dict := []
  pipelineName : Option String := none
  skipIf : Option Json := none

/-- The host's side of the engine configuration. -/
structure Config where
  workflowLoader : String → Except PyErr Workflow
  pipelineSchemaLoader : String → Except PyErr Schema
  resolveRef : Json → Dict → Except PyErr Json
  /-- `ast.literal_eval`; `none` when it raises. A tuple is read as a list. -/
  literalEval : String → Option Json
  /-- `json.loads`; `none` when it raises. -/
  jsonLoads : String → Option Json
  /-- Python's `str(value)`. -/
  strOf : Json → String
  project : String := ""
  ingestQueues : List String := ["fetch", "load"]
  /-- The registered callables, on reason and args. -/
  ingestTaskMap : List (String × (String → Dict → Except PyErr PyValue)) := []
  vlmPoolNodeModules : List String := []
  gpuSelfLoadNodeModules : List String := []
  watchdogMaxRetries : Nat := 3

/-- What one call sees of the world outside the database: the run's directory on
disk, the host's model cache and node code. Another call may see another one. -/
structure Host where
  /-- The per-step file lists under an `out_dir`; `none` when it is not a directory. -/
  stepFiles : String → Option (List (String × List Json))
  /-- `Path.is_file`, after the copies a callback has made so far. -/
  isFile : List (String × String) → String → Except PyErr Bool
  /-- `shutil.copy2` with the directories above its target, after the copies made so far. -/
  copyFile : List (String × String) → String → String → Except PyErr Unit
  buildInputSpec : WorkflowStep → RunRow → Except PyErr Dict → Except PyErr Json
  requireModel : String → Except PyErr Unit
  /-- `config.invoke_context` on entry. -/
  enterContext : NodeJob → Except PyErr Unit
  invoke : NodeJob → Dict → Except PyErr PyValue
  /-- The finalizer the invoke context yields, if any. -/
  finalize : Option (PyValue → Except PyErr PyValue) := none

namespace Dispatcher

private def pySpaces : List Nat :=
  [9, 10, 11, 12, 13, 28, 29, 30, 31, 32, 133, 160, 5760, 8192, 8193, 8194, 8195, 8196, 8197,
    8198, 8199, 8200, 8201, 8202, 8232, 8233, 8239, 8287, 12288]

/-- Python's `str.strip()`. -/
def strip (text : String) : String :=
  let space := fun (char : Char) => pySpaces.contains char.toNat
  String.ofList (((text.toList.dropWhile space).reverse.dropWhile space).reverse)

/-- `re.match(r"^<opening>(.+)\)$", text)`, group 1. The dot excludes a newline
and `$` allows one at the very end. -/
def bracketed (opening text : String) : Option String :=
  let chars := text.toList
  let body := if chars.getLast? = some '\n' then chars.dropLast else chars
  if opening.toList.isPrefixOf body then
    let rest := body.drop opening.toList.length
    let inner := rest.dropLast
    if rest.getLast? = some ')' ∧ inner ≠ [] ∧ '\n' ∉ inner then some (String.ofList inner)
    else none
  else none

def resolveInputRef (cfg : Config) (src stepId : String) (stepInputs : Dict)
    (runOutDir : Option String) : Json :=
  match bracketed "pipeline._implicit(" src with
  | some raw => (cfg.literalEval (strip raw)).getD (.str (strip raw))
  | none =>
    match bracketed "pipeline._siblings(" src with
    | some raw =>
      match cfg.literalEval (strip raw) with
      | some (.arr ids) =>
        match nonEmpty runOutDir with
        | none => .arr ids
        | some dir => .arr (ids.map fun sid => .str (dir ++ "/" ++ stepId ++ "/" ++ cfg.strOf sid))
      | _ => .arr []
    | none =>
      if "pipeline.".toList.isPrefixOf src.toList then
        (Dict.get? stepInputs (String.ofList (src.toList.drop 9))).getD .null
      else
        match nonEmpty runOutDir with
        | none => .str src
        | some dir =>
          let sibling := String.ofList (src.toList.takeWhile (· != '.'))
          let rest := String.ofList ((src.toList.dropWhile (· != '.')).drop 1)
          let base := dir ++ "/" ++ stepId ++ "/" ++ sibling
          .str (if rest = "" then base else base ++ "/" ++ rest)

/-- The step-to-leaf-nodes map: what a step-level `depends_on` entry expands to. -/
def leavesOf (sid : String) (nodes : Schema) : Except PyErr (List String) :=
  let referenced := nodes.flatMap SchemaNode.dependsOn
  let leaves := (nodes.filter fun sn => !referenced.contains sn.id).map fun sn => sid ++ "/" ++ sn.id
  if leaves.isEmpty then
    match nodes.getLast? with
    | some last => .ok [sid ++ "/" ++ last.id]
    | none => .error ⟨.indexError, "list index out of range"⟩
  else .ok leaves

def stepLeaves (cfg : Config) : List WorkflowStep → Except PyErr (List (String × List String))
  | [] => .ok []
  | step :: steps =>
    match step.kind with
    | .input => (stepLeaves cfg steps).map fun rest => (step.id, [step.id]) :: rest
    | .other => stepLeaves cfg steps
    | .pipeline => do
      let nodes ← cfg.pipelineSchemaLoader step.pipeline
      let leaves ← leavesOf step.id nodes
      let rest ← stepLeaves cfg steps
      return (step.id, leaves) :: rest

/-- A later step with the same id overwrites the entry of an earlier one. -/
def expandStepDeps (leaves : List (String × List String)) (deps : List String) : List String :=
  deps.flatMap fun dep => (leaves.reverse.lookup dep).getD [dep]

def expandNode (cfg : Config) (step : WorkflowStep) (stepDeps : List String)
    (runOutDir : Option String) (sn : SchemaNode) : DagNode where
  id := step.id ++ "/" ++ sn.id
  input := false
  node := (nonEmpty sn.node).getD sn.id
  dependsOn :=
    if sn.dependsOn.isEmpty then stepDeps else sn.dependsOn.map fun dep => step.id ++ "/" ++ dep
  gpu := sn.gpu
  model := sn.model
  inputs := (sn.inputs.filter fun inp => inp.name != "").foldl
    (fun dict inp =>
      Dict.set dict inp.name (resolveInputRef cfg inp.source step.id step.inputs runOutDir)) []
  pipelineName := some step.pipeline
  skipIf := (sn.skipIf.filter Json.truthy).or step.skipIf

def expandStep (cfg : Config) (leaves : List (String × List String)) (runOutDir : Option String)
    (step : WorkflowStep) : Except PyErr (List DagNode) :=
  match step.kind with
  | .input => .ok [{
      id := step.id, input := true, widget := step.widget, target := step.target,
      dependsOn := expandStepDeps leaves step.dependsOn, skipIf := step.skipIf }]
  | .other => .ok []
  | .pipeline => do
    let nodes ← cfg.pipelineSchemaLoader step.pipeline
    return nodes.map (expandNode cfg step (expandStepDeps leaves step.dependsOn) runOutDir)

def expandSteps (cfg : Config) (leaves : List (String × List String)) (runOutDir : Option String) :
    List WorkflowStep → Except PyErr (List DagNode)
  | [] => .ok []
  | step :: steps => do
    let nodes ← expandStep cfg leaves runOutDir step
    let rest ← expandSteps cfg leaves runOutDir steps
    return nodes ++ rest

/-- Expand a workflow into its node DAG using pipeline schemas. -/
def nodesOf (cfg : Config) (workflow : Workflow) (run : RunRow) : Except PyErr (List DagNode) := do
  let leaves ← stepLeaves cfg workflow.steps
  expandSteps cfg leaves run.outDir workflow.steps

/-- The DAG of a run as the engine would expand it now. -/
def dagOf (cfg : Config) (run : RunRow) : Except PyErr (List DagNode) := do
  let workflow ← cfg.workflowLoader run.workflowName
  nodesOf cfg workflow run

def queueOf (node : DagNode) : Queue :=
  if node.gpu then .gpu else .cpu

def requiredModel (node : DagNode) : Option String :=
  if node.gpu then nonEmpty node.model else none

/-- Every node that has no row yet and whose dependencies are all satisfied. -/
def findReadyNodes (nodes : List DagNode) (existing : List NodeJob) : List DagNode :=
  nodes.filter fun node =>
    !(existing.any fun job => job.nodeId == node.id) &&
      node.dependsOn.all fun dep =>
        existing.any fun job => job.nodeId == dep && job.status.satisfied

/-- The completion check: a non-empty DAG with every node completed or skipped. -/
def allSatisfied (nodes : List DagNode) (existing : List NodeJob) : Bool :=
  !nodes.isEmpty && nodes.all fun node =>
    existing.any fun job => job.nodeId == node.id && job.status.satisfied

end Dispatcher

end QueueWorkflows
