import QueueWorkflows.Backend.Port
import QueueWorkflows.Engine.Broker

/-! The executors whose queue is on a backend: the shared GPU pool, where a task carries
all that its handler needs, and the ingest queue. Either runs the host's callable in a
`try` block and ends the job by one call of the port. -/

namespace QueueWorkflows

open Backend (Port Op Reply)
open Executor (Outcome)

/-- What the executors see of a backend: how a call of the port is made, and what the
driver makes of a dict before it is sent. -/
structure Client (σ ι : Type) where
  port : Port σ ι
  label : Op → Int → ι
  encode : List (String × PyValue) → Except PyErr Dict

/-- `result if isinstance(result, dict) else {"result": result}`. -/
def PyValue.wrapped (result : PyValue) : List (String × PyValue) :=
  result.entries?.getD [("result", result)]

namespace Client

variable {σ ι : Type} (client : Client σ ι)

/-- A terminal call: no row means that the job had ended before. -/
def settle (op : Op) (outcome : Outcome) (now : Int) (store : σ) : Except PyErr Outcome × σ :=
  let (reply, store) := client.port.call store (client.label op now)
  match reply with
  | .job (some _) => (.ok outcome, store)
  | .raised error => (.error error, store)
  | _ => (.ok .skipped, store)

end Client

namespace GpuPool

/-- The ops deployed on a box, on inputs, output_dir and params. -/
structure Worker where
  handlers : List (String × (Json → Json → Json → Except PyErr PyValue))
  /-- Python's `repr(value)`. -/
  repr : Json → String

/-- `payload.get(key)`. -/
def field (job : Backend.Job) (key : String) : Json :=
  (job.payload.get? key).getD .null

/-- `payload.get(key) or {}`. -/
def fieldOrEmpty (job : Backend.Job) (key : String) : Json :=
  if (field job key).truthy then field job key else .obj []

/-- `gpu_pool_handlers.get(handler)`: a list or a dict is no key. -/
def Worker.handler (worker : Worker) (job : Backend.Job) :
    Except PyErr (Option (Json → Json → Json → Except PyErr PyValue)) :=
  match field job "handler" with
  | .str name => .ok (worker.handlers.lookup name)
  | .arr _ => .error ⟨.typeError, "unhashable type: 'list'"⟩
  | .obj _ => .error ⟨.typeError, "unhashable type: 'dict'"⟩
  | _ => .ok none

def Worker.unknown (worker : Worker) (job : Backend.Job) : String :=
  "unknown pool handler " ++ worker.repr (field job "handler") ++ " on this worker (registered: " ++
    sortedNames (worker.handlers.map Prod.fst) ++ ")"

/-- `execute_pool_task`. What the driver cannot encode is raised to the caller. -/
def executePoolTask {σ ι : Type} (client : Client σ ι) (worker : Worker) (job : Backend.Job)
    (now : Int) (store : σ) : Except PyErr Outcome × σ :=
  match worker.handler job with
  | .error error => (.error error, store)
  | .ok none =>
    client.settle (.failWithEvent job.id "failed" (some (worker.unknown job))) .failed now store
  | .ok (some fn) =>
    match fn (fieldOrEmpty job "inputs") (field job "output_dir") (fieldOrEmpty job "params") with
    | .error error =>
      client.settle (.failWithEvent job.id "failed" (some error.describe)) .failed now store
    | .ok result =>
      match client.encode result.wrapped with
      | .error error => (.error error, store)
      | .ok result =>
        client.settle (.completeWithEvent job.id "completed" (some result)) .completed now store

end GpuPool

namespace IngestExecutor

end IngestExecutor

end QueueWorkflows
