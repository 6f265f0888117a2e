import QueueWorkflows.Base.Program
import QueueWorkflows.Engine.NodeQueue

/-! The DAG dispatcher. Every call into `node_queue` or `run_store` opens its own
connection, so each is a transaction of its own and the callbacks are programs. -/

namespace QueueWorkflows

open Transaction (Prog)
open Transaction.Prog (commit ofExcept)

/-- The transaction statements of the engine's multi-transaction paths, with the
node they are about where one path serves several. -/
inductive Place where
  | startGetRun | startReject | tickSetRunning
  | readyJobs | refJobs | insertQueued | insertSkipped
  | completedGetRun | completedJobs | terminalJobs | setCompleted
  | patchJobs | patchSpecJobs | patchSpec
  | failedGetRun | failedJobs | cancelSiblings (nodeId : String) | setFailed (nodeId : String)
  | awaitingGetRun | awaitingSpec
  | reconcileGetRun | reconcileJobs | reconcileSetCompleted | reconcileSetRunning
  | reconcileDelete | reconcileSetFailed
  | resumeJobs (nodeId : String) | resumeMark | markProcessed (nodeId : String) | markFailed
  | drainPoison | drainCommit
  | execGetRun | inputsGetRun | setResolvedInputs | markTerminal | requeue (tested : Nat) | parkInput | tripRead
  | restartDelete
deriving DecidableEq

/-- Where a transaction stands. `stale` lists the runs that the path selected or
read in an earlier transaction and may yet set to `running` or `completed`
without reading their row again. -/
structure Site where
  place : Place
  run : String := ""
  stale : List String := []
deriving DecidableEq

abbrev Program := Prog Db Site PyErr

namespace Dispatcher

variable (cfg : Config) (host : Host)

/-! ### Reference contexts -/

/-- Fold completed siblings' deltas in under their node id. A context entry that
is no mapping makes the merge raise, which ends the loop. -/
def mergeSiblings (ctx : Dict) : List NodeJob → Dict
  | [] => ctx
  | sib :: rest =>
    if sib.status = .completed ∧ sib.contextDelta.truthy ∧ sib.nodeId ≠ "" then
      match ((Dict.get? ctx sib.nodeId).filter Json.truthy).getD (.obj []), sib.contextDelta with
      | .obj old, .obj delta =>
        mergeSiblings (Dict.set ctx sib.nodeId (.obj (Dict.merge old delta))) rest
      | _, _ => ctx
    else mergeSiblings ctx rest

/-- The on-disk scan sets the `files` key of each step directory's entry. -/
def mergeFiles (ctx : Dict) : List (String × List Json) → Except PyErr Dict
  | [] => .ok ctx
  | (name, files) :: rest =>
    match ((Dict.get? ctx name).filter Json.truthy).getD (.obj []) with
    | .obj old => mergeFiles (Dict.set ctx name (.obj (Dict.set old "files" (.arr files)))) rest
    | _ => .error ⟨.typeError, "object is not a mapping"⟩

def refContext (run : RunRow) (siblings : List NodeJob) : Except PyErr Dict :=
  let ctx := mergeSiblings run.context siblings
  match (nonEmpty run.outDir).bind host.stepFiles with
  | none => .ok ctx
  | some steps => mergeFiles ctx steps

/-- A failed read of the siblings is logged and leaves the run's own context. -/
def readSiblings (site : Site) (run : RunRow) : Program (List NodeJob) :=
  (commit site (NodeQueue.listJobsForRun run.id)).handle fun _ => pure []

def evalSkipContext (run : RunRow) (existing : List NodeJob) : Dict :=
  existing.foldl (fun ctx job =>
    if job.status = .completed ∧ job.contextDelta.truthy then Dict.set ctx job.nodeId job.contextDelta
    else ctx) run.context

/-- `KeyError` and `TypeError` mean "do not skip"; any other exception propagates. -/
def shouldSkipNode (node : DagNode) (run : RunRow) (existing : List NodeJob) :
    Except PyErr Bool :=
  match node.skipIf.filter Json.truthy with
  | none => .ok false
  | some skipIf =>
    match cfg.resolveRef skipIf (evalSkipContext run existing) with
    | .ok value => .ok value.truthy
    | .error error =>
      if error.kind = .keyError ∨ error.kind = .typeError then .ok false else .error error

/-! ### Expansion -/

def resolveInputs (context : Dict) : Dict → Except PyErr Dict
  | [] => .ok []
  | (key, value) :: rest => do
    let resolved ← cfg.resolveRef value context
    let others ← resolveInputs context rest
    return (key, resolved) :: others

def moduleOf (node : DagNode) : String :=
  if node.node = "" then node.id else node.node

def inputJob (node : DagNode) (run : RunRow) : NodeQueue.NewJob where
  runId := run.id
  nodeId := node.id
  nodeModule := "__input__" ++ node.widget
  queue := .cpu
  inputs := [("widget", .str node.widget), ("target", (node.target.map Json.str).getD .null)]
  priority := run.priority
  project := run.project

def pipelineJob (node : DagNode) (run : RunRow) (resolved : Dict) : NodeQueue.NewJob where
  runId := run.id
  nodeId := node.id
  nodeModule := moduleOf node
  queue := queueOf node
  requiredModel := requiredModel node
  inputs := resolved
  priority := run.priority
  pipelineName := node.pipelineName
  project := run.project

/-- Translate a DAG node into a queued row, resolving its refs at enqueue time. -/
def enqueue (stale : List String) (node : DagNode) (run : RunRow) : Program Unit :=
  if node.input then do
    let _ ← commit ⟨.insertQueued, run.id, stale⟩ (NodeQueue.enqueueNodeJob (inputJob node run))
  else do
    let siblings ← readSiblings ⟨.refJobs, run.id, stale⟩ run
    let context ← ofExcept (refContext host run siblings)
    let resolved ← ofExcept (resolveInputs cfg context node.inputs)
    let _ ← commit ⟨.insertQueued, run.id, stale⟩
      (NodeQueue.enqueueNodeJob (pipelineJob node run resolved))

/-- One ready node: a skip marker, or a queued row. -/
def dispatchNode (stale : List String) (run : RunRow) (existing : List NodeJob) (node : DagNode) :
    Program Unit := do
  let skip ← ofExcept (shouldSkipNode cfg node run existing)
  if skip then
    let _ ← commit ⟨.insertSkipped, run.id, stale⟩
      (NodeQueue.insertSkippedJob run.id node.id node.pipelineName run.project)
  else
    enqueue cfg host stale node run

def dispatchReady (stale : List String) (run : RunRow) (existing : List NodeJob) :
    List DagNode → Program Nat
  | [] => pure 0
  | node :: rest => do
    dispatchNode cfg host stale run existing node
    let others ← dispatchReady stale run existing rest
    return others + 1

/-- Group by required model; within a model the ready order stays. -/
def byModel (ready : List DagNode) : List DagNode :=
  ready.insertionSort fun first second =>
    (nonEmpty first.model).getD "\uffff" ≤ (nonEmpty second.model).getD "\uffff"

/-- The `while True` loop, unrolled at most `fuel` times. -/
def processReady (stale : List String) (wf : Workflow) (run : RunRow) : Nat → Program Nat
  | 0 => .diverge
  | fuel + 1 => do
    let existing ← commit ⟨.readyJobs, run.id, stale⟩ (NodeQueue.listJobsForRun run.id)
    let nodes ← ofExcept (nodesOf cfg wf run)
    let ready := findReadyNodes nodes existing
    if ready.isEmpty then
      return 0
    else
      let inserted ← dispatchReady cfg host stale run existing (byModel ready)
      let more ← processReady stale wf run fuel
      return inserted + more

/-- The `gpu:true` nodes that would enqueue without a required model. -/
def gpuOffenders (nodes : List DagNode) : List DagNode :=
  let exempt := cfg.vlmPoolNodeModules ++ cfg.gpuSelfLoadNodeModules
  nodes.filter fun node =>
    node.gpu && (nonEmpty node.model).isNone && !exempt.contains (moduleOf node)

def gpuError (offenders : List DagNode) : String :=
  "gpu:true node(s) without a declared 'model' would enqueue with required_model=NULL — declare " ++
    "a registered model in the schema, or add the module to vlm_pool_node_modules / " ++
    "gpu_self_load_node_modules if it intentionally self-manages its model: " ++
    String.intercalate ", " (offenders.map fun node =>
      node.id ++ " (module='" ++ moduleOf node ++ "')")

def assertGpuNodesDeclareModel (wf : Workflow) (run : RunRow) : Except PyErr Unit := do
  let nodes ← nodesOf cfg wf run
  let offenders := gpuOffenders cfg nodes
  if offenders.isEmpty then .ok () else .error ⟨.valueError, gpuError offenders⟩

theorem assertGpuNodesDeclareModel_ok {wf : Workflow} {run : RunRow} :
    assertGpuNodesDeclareModel cfg wf run = .ok () ↔
      ∃ nodes, nodesOf cfg wf run = .ok nodes ∧ gpuOffenders cfg nodes = [] := by
  unfold assertGpuNodesDeclareModel
  cases nodesOf cfg wf run with
  | error error => simp [bind, Except.bind]
  | ok nodes =>
    dsimp only [bind, Except.bind]
    cases offending : gpuOffenders cfg nodes <;> simp [offending]

/-- `start_run`. The status of the row it reads is not looked at. A `ValueError` that the
loading of a schema raises under the assertion rejects the run as well. -/
def startRun (stale : List String) (runId : String) (fuel : Nat) : Program Nat := do
  let found ← commit ⟨.startGetRun, runId, stale⟩ (RunStore.getRun runId)
  match found with
  | none => .raise ⟨.keyError, runId⟩
  | some run =>
    let wf ← ofExcept (cfg.workflowLoader run.workflowName)
    match assertGpuNodesDeclareModel cfg wf run with
    | .ok () => processReady cfg host stale wf run fuel
    | .error error =>
      if error.kind.isValueError then
        commit ⟨.startReject, runId, stale.filter (· != runId)⟩ fun db =>
          RunStore.updateRun runId
            { status := .failed, finishedAt := some db.clock, error := some error.text } db
        return 0
      else
        .raise error

/-! ### Patch jobs -/

/-- The `__patch__` marker dict of a row's inputs; an empty one is falsy and does
not count where the callbacks test it. -/
def patchMeta (job : NodeJob) : Option Dict :=
  match Dict.get? job.inputs "__patch__" with
  | some (.obj fields) => if fields.isEmpty then none else some fields
  | _ => none

def metaText (cfg : Config) (fields : Dict) (key : String) : String :=
  match (Dict.get? fields key).filter Json.truthy with
  | some value => cfg.strOf value
  | none => ""

/-- Merge `fields` into a spec; a `none` value removes its key. -/
def bumped (spec : Dict) (fields : List (String × Option Json)) : Dict :=
  fields.foldl (fun dict entry => match entry.2 with
    | none => Dict.pop dict entry.1
    | some value => Dict.set dict entry.1 value) spec

/-- A no-op when the target is not parked or has no spec yet. -/
def bumpInputSpec (runId targetInput : String) (fields : Time → List (String × Option Json)) :
    Program Unit :=
  if targetInput = "" then pure ()
  else do
    let existing ← commit ⟨.patchSpecJobs, runId, []⟩ (NodeQueue.listJobsForRun runId)
    match (existing.find? fun job => job.nodeId == targetInput).bind NodeJob.inputSpec with
    | some (.obj spec) =>
      commit ⟨.patchSpec, runId, []⟩ fun db =>
        NodeQueue.setInputSpec runId targetInput (some (.obj (bumped spec (fields db.clock)))) db
    | _ => pure ()

/-- `(delta or {}).items()`. -/
def deltaItems : Json → Except PyErr Dict
  | .obj fields => .ok fields
  | value =>
    if value.truthy then
      .error ⟨.other "AttributeError",
        "'" ++ (PyValue.json value).typeName ++ "' object has no attribute 'items'"⟩
    else .ok []

/-- `(delta or {}).get(key)`. -/
def deltaGet (delta : Json) (key : String) : Except PyErr (Option Json) :=
  match delta with
  | .obj fields => .ok (Dict.get? fields key)
  | value =>
    if value.truthy then
      .error ⟨.other "AttributeError",
        "'" ++ (PyValue.json value).typeName ++ "' object has no attribute 'get'"⟩
    else .ok none

/-- Two different texts that begin with the run's output directory: patch file and original
path. -/
def patchPaths (outDir : String) (new : Json) (old : Option Json) : Option (String × String) :=
  match new, old with
  | .str new, some (.str old) =>
    if new ≠ old ∧ outDir ≠ "" ∧ outDir.toList.isPrefixOf new.toList ∧
        outDir.toList.isPrefixOf old.toList then some (new, old)
    else none
  | _, _ => none

/-- The loop over the patch's delta, with the copies it has come to try; `made` are those
before. -/
def copyFiles (outDir : String) (deltaOld : Json) :
    List (String × String) → Dict → List (String × String) × Except PyErr Unit
  | made, [] => (made, .ok ())
  | made, (key, newVal) :: rest =>
    match deltaGet deltaOld key with
    | .error error => (made, .error error)
    | .ok oldVal =>
      match patchPaths outDir newVal oldVal with
      | none => copyFiles outDir deltaOld made rest
      | some (new, old) =>
        match host.isFile made new with
        | .error error => (made, .error error)
        | .ok false => copyFiles outDir deltaOld made rest
        | .ok true =>
          match host.copyFile made new old with
          | .error error => (made ++ [(new, old)], .error error)
          | .ok _ => copyFiles outDir deltaOld (made ++ [(new, old)]) rest

/-- What `_finish_patch_job` does on the disk, with the row of the source node. -/
def patchCopies (run : RunRow) (job : NodeJob) (source : Option NodeJob) :
    List (String × String) × Except PyErr Unit :=
  match deltaItems job.contextDelta with
  | .error error => ([], .error error)
  | .ok deltaNew =>
    copyFiles host (run.outDir.getD "") ((source.map NodeJob.contextDelta).getD (.obj [])) []
      deltaNew

def finishPatchJob (run : RunRow) (job : NodeJob) (fields : Dict) : Program Unit := do
  let existing ← commit ⟨.patchJobs, run.id, []⟩ (NodeQueue.listJobsForRun run.id)
  let source := existing.find? fun other => other.nodeId == metaText cfg fields "source_node"
  ofExcept (patchCopies host run job source).2
  bumpInputSpec run.id (metaText cfg fields "target_input") fun now =>
    [("patched_at", some (.int now)), ("patch_error", none), ("patch_pending", none),
      ("patch_node_id", none)]

def flagPatchError (run : RunRow) (job : NodeJob) (fields : Dict) : Program Unit :=
  let text := String.ofList (((nonEmpty job.error).getD "patch failed").toList.take 500)
  bumpInputSpec run.id (metaText cfg fields "target_input") fun _ =>
    [("patch_error", some (.str text)), ("patch_pending", none), ("patch_node_id", none)]

/-! ### Worker callbacks -/

def completeIfSatisfied (runId : String) (nodes : List DagNode) (existing : List NodeJob) :
    Program Unit :=
  if allSatisfied nodes existing then
    commit ⟨.setCompleted, runId, [runId]⟩ fun db =>
      RunStore.updateRun runId { status := .completed, finishedAt := some db.clock } db
  else pure ()

/-- What `on_node_completed` does once the run is live and the row no patch. -/
def advanceRun (runId : String) (run : RunRow) (fuel : Nat) : Program Nat := do
  let wf ← ofExcept (cfg.workflowLoader run.workflowName)
  let newRows ← processReady cfg host [runId] wf run fuel
  let existing ← commit ⟨.terminalJobs, runId, [runId]⟩ (NodeQueue.listJobsForRun runId)
  let nodes ← ofExcept (nodesOf cfg wf run)
  completeIfSatisfied runId nodes existing
  return newRows

def onNodeCompleted (runId nodeId : String) (fuel : Nat) : Program Nat := do
  let found ← commit ⟨.completedGetRun, runId, []⟩ (RunStore.getRun runId)
  match found with
  | none => return 0
  | some run =>
    if run.status.halted then
      return 0
    else
      let existing ← commit ⟨.completedJobs, runId, [runId]⟩ (NodeQueue.listJobsForRun runId)
      match (existing.find? fun job => job.nodeId == nodeId).bind fun job =>
          (patchMeta job).map (Prod.mk job) with
      | some (job, fields) =>
        finishPatchJob cfg host run job fields
        return 0
      | none => advanceRun cfg host runId run fuel

def failRun (runId nodeId : String) : Program Unit := do
  commit ⟨.cancelSiblings nodeId, runId, []⟩ (NodeQueue.cancelSiblingsAfterFailure runId)
  commit ⟨.setFailed nodeId, runId, []⟩ fun db =>
    RunStore.updateRun runId
      { status := .failed, finishedAt := some db.clock
        error := some ("node '" ++ nodeId ++ "' failed (see workflow_node_jobs.error)") } db

def onNodeFailed (runId nodeId : String) : Program Unit := do
  let found ← commit ⟨.failedGetRun, runId, []⟩ (RunStore.getRun runId)
  if (found.map RunRow.status).any RunStatus.halted then
    return ()
  else
    let existing ← commit ⟨.failedJobs, runId, []⟩ (NodeQueue.listJobsForRun runId)
    match (existing.find? fun job => job.nodeId == nodeId).bind fun job =>
        (patchMeta job).map (Prod.mk job), found with
    | some (job, fields), some run => flagPatchError cfg run job fields
    | _, _ => failRun runId nodeId

def onNodeAwaitingInput (runId nodeId : String) : Program Unit := do
  let found ← commit ⟨.awaitingGetRun, runId, []⟩ (RunStore.getRun runId)
  match found with
  | none => return ()
  | some run =>
    if run.status.halted then
      return ()
    else
      let wf ← ofExcept (cfg.workflowLoader run.workflowName)
      match wf.steps.find? fun step => step.kind = .input ∧ step.id = nodeId with
      | none => return ()
      | some step =>
        let siblings ← readSiblings ⟨.refJobs, runId, []⟩ run
        let spec ← ofExcept (host.buildInputSpec step run (refContext host run siblings))
        (commit ⟨.awaitingSpec, runId, []⟩ (NodeQueue.setInputSpec runId nodeId (some spec))).handle
          fun _ => pure ()

/-! ### Reconciler and input resumption -/

inductive Reconciled where
  | noop
  | completed
  | enqueued
  | requeued
  | failed
deriving DecidableEq, Repr

def reconcileError : String :=
  "reconciler: no runnable node-jobs and run not complete (dead-ended DAG — a cancelled node " ++
    "with no forward path); retry to re-run"

def setRunning (runId : String) : Program Unit :=
  commit ⟨.reconcileSetRunning, runId, [runId]⟩ (RunStore.updateRun runId { status := .running })

/-- `dropped and _process_ready(…)`. -/
def expandDropped (runId : String) (wf : Workflow) (run : RunRow) (fuel : Nat)
    (dropped : List String) : Program Nat :=
  if dropped.isEmpty then pure 0 else processReady cfg host [runId] wf run fuel

/-- Drop the dead rows and expand again from the completed/skipped cursor. -/
def requeueBlocked (runId : String) (wf : Workflow) (run : RunRow) (fuel : Nat) :
    Program Reconciled := do
  let dropped ← commit ⟨.reconcileDelete, runId, [runId]⟩
    (NodeQueue.deleteNonTerminalJobsForRun runId)
  let expanded ← expandDropped cfg host runId wf run fuel dropped
  if 0 < expanded then
    setRunning runId
    return .requeued
  else
    commit ⟨.reconcileSetFailed, runId, []⟩ fun db =>
      RunStore.updateRun runId
        { status := .failed, finishedAt := some db.clock, error := some reconcileError } db
    return .failed

def reconcileRun (runId : String) (fuel : Nat) : Program Reconciled := do
  let found ← commit ⟨.reconcileGetRun, runId, []⟩ (RunStore.getRun runId)
  match found with
  | none => return .noop
  | some run =>
    if run.status.terminal then
      return .noop
    else
      let existing ← commit ⟨.reconcileJobs, runId, [runId]⟩ (NodeQueue.listJobsForRun runId)
      if existing.any fun job => job.status.live then
        return .noop
      else
        let wf ← ofExcept (cfg.workflowLoader run.workflowName)
        let nodes ← ofExcept (nodesOf cfg wf run)
        if allSatisfied nodes existing then
          commit ⟨.reconcileSetCompleted, runId, [runId]⟩ fun db =>
            RunStore.updateRun runId { status := .completed, finishedAt := some db.clock } db
          return .completed
        else
          let expanded ← processReady cfg host [runId] wf run fuel
          if 0 < expanded then
            setRunning runId
            return .enqueued
          else
            requeueBlocked cfg host runId wf run fuel

/-- A dict key as `json.dumps` writes it; a list or dict cannot be a key. -/
def dictKey : Json → Except PyErr String
  | .str text => .ok text
  | .null => .ok "null"
  | .bool value => .ok (if value then "true" else "false")
  | .int value => .ok (toString value)
  | .float value => .ok (cfg.strOf (.float value))
  | .arr _ => .error ⟨.typeError, "unhashable type: 'list'"⟩
  | .obj _ => .error ⟨.typeError, "unhashable type: 'dict'"⟩

/-- The answer an input node stores: nothing without a target or for `null`. -/
def answerDelta (job : NodeJob) (value : Json) : Except PyErr Json :=
  match (Dict.get? job.inputs "target").filter Json.truthy with
  | none => .ok (.obj [])
  | some target =>
    if value matches .null then .ok (.obj [])
    else (dictKey cfg target).map fun key => .obj [(key, value)]

def resumeAfterInput (runId nodeId : String) (value : Json) (fuel : Nat) : Program Nat := do
  let existing ← commit ⟨.resumeJobs nodeId, runId, []⟩ (NodeQueue.listJobsForRun runId)
  match existing.find? fun job => job.nodeId == nodeId with
  | none => .raise ⟨.keyError, "no job for " ++ runId ++ ":" ++ nodeId⟩
  | some job =>
    if job.status = .awaitingInput ∨ job.status = .queued then
      let delta ← ofExcept (answerDelta cfg job value)
      let _ ← commit ⟨.resumeMark, runId, []⟩ (NodeQueue.markCompletedInTxn job.id delta)
      onNodeCompleted cfg host runId nodeId fuel
    else
      return 0

/-! ### Late input resolution -/

/-- A ref that no longer resolves falls back to the stored value. -/
def reresolve (context : Dict) : Dict → Except PyErr Dict
  | [] => .ok []
  | (key, value) :: rest => do
    let resolved ← match cfg.resolveRef value context with
      | .ok resolved => .ok resolved
      | .error error => if error.kind = .keyError then .ok value else .error error
    let others ← reresolve context rest
    return (key, resolved) :: others

def isInputModule (nodeModule : String) : Bool :=
  "__input__".toList.isPrefixOf nodeModule.toList

def resolveInputsForJob (job : NodeJob) : Program Dict :=
  if isInputModule job.nodeModule then return job.inputs
  else do
    let found ← commit ⟨.inputsGetRun, job.runId, []⟩ (RunStore.getRun job.runId)
    match found with
    | none => ofExcept (reresolve cfg [] job.inputs)
    | some run =>
      let siblings ← readSiblings ⟨.refJobs, run.id, []⟩ run
      let context ← ofExcept (refContext host run siblings)
      ofExcept (reresolve cfg context job.inputs)

end Dispatcher

end QueueWorkflows
