import Mathlib.Data.List.Infix
import QueueWorkflows.Engine.Dispatcher

/-! The claim worker's side: `node_executor.execute_node`, the input park of
`ClaimWorker._run_node` and the outcome paths of the watchdogs. The forensic
node-event log is best-effort and read by no modelled path; it is left out. -/

namespace QueueWorkflows

open Transaction (Prog)
open Transaction.Prog (commit ofExcept)

namespace Executor

variable (cfg : Config) (host : Host)

inductive Outcome where
  | completed
  | failed
  | skipped
  | requeued
deriving DecidableEq, Repr

def gpuErrorMarkers : List String :=
  ["acceleratorerror", "cuda error", "cuda-capable", "cublas", "cudnn", "nvml", "out of memory",
    "device-side assert", "hip error", "rocm error", "busy or unavailable",
    "cudaerrordevicesunavailable", "no cuda-capable device"]

def isTransientGpuError (text : String) : Bool :=
  let lower := text.toList.map Char.toLower
  gpuErrorMarkers.any fun marker => decide (marker.toList <:+: lower)

/-- The terminal mark and its outbox row, in one transaction. The row returned by
the mark is `none` when it was already closed, and then no event is written. -/
def markWithEvent (marking : Txn (Option NodeJob)) (runId nodeId : String) (kind : EventKind)
    (outcome : Outcome) : Txn Outcome := do
  match ← marking with
  | none => return .skipped
  | some _ =>
    NodeQueue.enqueueDispatchEventInTxn runId nodeId kind
    return outcome

def finaliseFailed (job : NodeJob) (error : String) : Program Outcome :=
  commit ⟨.markTerminal, job.runId, []⟩
    (markWithEvent (NodeQueue.markFailedInTxn job.id error) job.runId job.nodeId .failed .failed)

def finaliseCompleted (job : NodeJob) (contextDelta : Json) : Program Outcome :=
  commit ⟨.markTerminal, job.runId, []⟩
    (markWithEvent (NodeQueue.markCompletedInTxn job.id contextDelta) job.runId job.nodeId
      .completed .completed)

/-- The retry count that is tested is the one of the claimed row, not of the row as it is
now. -/
def requeueForTransientGpu (job : NodeJob) (error : String) : Program Outcome :=
  if cfg.watchdogMaxRetries ≤ job.watchdogRetries then finaliseFailed job error
  else do
    let requeued ← commit ⟨.requeue job.watchdogRetries, job.runId, []⟩
      (NodeQueue.requeueJobForRetry job.id)
    match requeued with
    | none => finaliseFailed job error
    | some _ => return .requeued

def settleError (job : NodeJob) (short error : String) : Program Outcome :=
  if isTransientGpuError short then requeueForTransientGpu cfg job error
  else finaliseFailed job error

def finalized (contextDelta : PyValue) : Except PyErr PyValue :=
  match host.finalize with
  | none => .ok contextDelta
  | some finalize => finalize contextDelta

/-- What `_invoke` returns: a dict without a `context_delta` is the delta itself, and what is
no dict gives none. -/
def normalised (result : PyValue) : List (String × PyValue) :=
  match result.entries? with
  | none => [("context_delta", .dict [])]
  | some entries =>
    if (List.lookup "context_delta" entries).isSome then entries
    else [("context_delta", result)]

/-- `result.get("context_delta", {})` through the finalizer, as the column takes it. -/
def deltaOf (result : PyValue) : Except PyErr Json := do
  let contextDelta ←
    finalized host ((List.lookup "context_delta" (normalised result)).getD (.dict []))
  if contextDelta.truthy then contextDelta.dumps else .ok (.obj [])

/-- Resolve the inputs, invoke the node inside the host's context, settle the row. -/
def invokeNode (job : NodeJob) : Program Outcome := do
  let freshInputs ← Dispatcher.resolveInputsForJob cfg host job
  (commit ⟨.setResolvedInputs, job.runId, []⟩
    (NodeQueue.setResolvedInputs job.id freshInputs)).handle fun _ => pure ()
  ofExcept (host.enterContext job)
  match host.invoke job freshInputs with
  | .error error => settleError cfg job error.describe error.describe
  | .ok result =>
    let contextDelta ← ofExcept (deltaOf host result)
    finaliseCompleted job contextDelta

def executeNode (hasCache : Bool) (job : NodeJob) : Program Outcome := do
  let _ ← commit ⟨.execGetRun, job.runId, []⟩ (RunStore.getRun job.runId)
  match nonEmpty job.requiredModel with
  | none => invokeNode cfg host job
  | some model =>
    if hasCache then
      match host.requireModel model with
      | .ok _ => invokeNode cfg host job
      | .error error =>
        let text := "model load failed: " ++ error.describe
        settleError cfg job text text
    else
      finaliseFailed job ("node '" ++ job.nodeId ++ "' declares required_model '" ++ model ++
        "' but no model_cache was supplied")

end Executor

namespace ClaimWorker

variable (cfg : Config) (host : Host)

/-- An input node executes no module: it is parked, with its event, in one
transaction. The event is written whether or not the mark took. -/
def parkInput (job : NodeJob) : Txn Unit := do
  let _ ← NodeQueue.markAwaitingInputInTxn job.id
  NodeQueue.enqueueDispatchEventInTxn job.runId job.nodeId .awaitingInput

def runNode (hasCache : Bool) (job : NodeJob) : Program Unit :=
  if Dispatcher.isInputModule job.nodeModule then
    commit ⟨.parkInput, job.runId, []⟩ (parkInput job)
  else do
    let _ ← Executor.executeNode cfg host hasCache job

def failJobInTxn (jobId : Nat) (error : String) : Txn Unit := do
  match ← NodeQueue.markFailedInTxn jobId error with
  | none => return ()
  | some row => NodeQueue.enqueueDispatchEventInTxn row.runId row.nodeId .failed

/-- A failure to write is logged; the process exits either way. -/
def failJobAndExit (job : NodeJob) (error : String) : Program Unit :=
  (commit ⟨.markTerminal, job.runId, []⟩ (failJobInTxn job.id error)).handle fun _ => pure ()

/-- `tested` is the count on which the trip has decided; the statement does not use it. -/
def requeueJobAndExit (job : NodeJob) (tested : Nat) : Program Unit :=
  Prog.handle (do
    let _ ← commit ⟨.requeue tested, job.runId, []⟩ (NodeQueue.requeueJobForRetry job.id))
    fun _ => pure ()

/-- `int((row or {}).get("watchdog_retries") or 0)`. -/
def testedCount (row : Option NodeJob) : Nat :=
  (row.map NodeJob.watchdogRetries).getD 0

/-- Requeue under the cap, fail at the cap. A row that cannot be read counts as
never retried. -/
def watchdogTrip (job : NodeJob) (error : String) : Program Unit := do
  let row ← (commit ⟨.tripRead, job.runId, []⟩ (NodeQueue.getNodeJob job.id)).handle
    fun _ => pure none
  if testedCount row < cfg.watchdogMaxRetries then
    requeueJobAndExit job (testedCount row)
  else
    failJobAndExit job error

/-- `JobStatusWatcher`: the row is still claimed by this host. -/
def stillOurs (db : Db) (jobId : Nat) (claimedBy : String) : Bool :=
  (db.job? jobId).any fun row => row.claimedBy == some claimedBy

/-- The rows `LeaseRenewer` would renew. -/
def renewable (db : Db) (jobId : Nat) (claimedBy : String) : Bool :=
  (db.job? jobId).any fun row => row.claimedBy == some claimedBy && row.status == .running

end ClaimWorker

end QueueWorkflows
