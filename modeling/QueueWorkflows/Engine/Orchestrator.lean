import QueueWorkflows.Engine.Dispatcher

/-! The orchestrator's background loops: the expansion step, the event drain and
the stuck-run sweep of `node_pool`, and the input listener. -/

namespace QueueWorkflows

open Transaction (Prog)
open Transaction.Prog (commit ofExcept)

namespace NodePool

variable (cfg : Config) (host : Host) (fuel : Nat)

/-- One turn of the expansion loop: `start_run`, then `running` if it expanded. -/
def expandRun (stale : List String) (runId : String) : Program Unit := do
  let inserted ← Dispatcher.startRun cfg host stale runId fuel
  if 0 < inserted then
    commit ⟨.tickSetRunning, runId, stale⟩ (RunStore.updateRun runId { status := .running })

/-- `_tick`, step 1, after `list_queued_node_run_ids`. The listed runs stay on
the path's hands until their turn is over. -/
def expandRuns : List String → Program Unit
  | [] => pure ()
  | runId :: rest => do
    (expandRun cfg host fuel (runId :: rest) runId).handle fun _ => pure ()
    expandRuns rest

def dispatchMaxAttempts : Nat := 10

/-- The SELECT of the drain: unprocessed events of this project's runs that no
other drain holds locked, oldest first. -/
def drainBatch (locked : List Nat) (db : Db) : List DispatchEvent :=
  (db.events.filter fun event =>
    event.processedAt.isNone && !locked.contains event.id &&
      (db.run? event.runId).any fun run => run.project == cfg.project).take 50

/-- What became of one event in a pass of the drain. -/
inductive Handled where
  | succeeded (event : DispatchEvent)
  | raised (event : DispatchEvent) (error : PyErr)

/-- The event a pass of the drain dealt with. -/
def Handled.event : Handled → DispatchEvent
  | .succeeded event => event
  | .raised event _ => event

def callback (event : DispatchEvent) : Program Unit :=
  match event.kind with
  | .completed => do let _ ← Dispatcher.onNodeCompleted cfg host event.runId event.nodeId fuel
  | .failed => Dispatcher.onNodeFailed cfg event.runId event.nodeId
  | .awaitingInput => Dispatcher.onNodeAwaitingInput cfg host event.runId event.nodeId

def handleEvent (event : DispatchEvent) : Program Handled :=
  Prog.handle (do callback cfg host fuel event; return .succeeded event)
    fun error => pure (.raised event error)

def updateEvent (eventId : Nat) (change : DispatchEvent → DispatchEvent) (db : Db) : Db :=
  { db with events := db.events.map fun event =>
      if event.id == eventId then change event else event }

def markProcessed (eventId : Nat) (db : Db) : Db :=
  updateEvent eventId (fun event => { event with processedAt := some db.clock }) db

def kindName : EventKind → String
  | .completed => "completed"
  | .failed => "failed"
  | .awaitingInput => "awaiting_input"

def poisonError (event : DispatchEvent) (error : PyErr) : String :=
  "dispatch callback '" ++ kindName event.kind ++ "' for node '" ++ event.nodeId ++
    "' failed after " ++ toString (event.attempts + 1) ++ " attempts: " ++
    String.ofList (error.describe.toList.take 500)

/-- The poison path: guarded, unlike `update_run`. -/
def poisonRun (event : DispatchEvent) (error : PyErr) (db : Db) : Db :=
  let live := fun run : RunRow => run.id == event.runId && !run.status.terminal
  let fail := fun run : RunRow => { run with
    status := .failed, finishedAt := some db.clock, error := some (poisonError event error) }
  { db with runs := db.runs.update live fail fun _ => rfl }

/-- The bookkeeping statements of one event. -/
def settleEvent (db : Db) : Handled → Db
  | .succeeded event => markProcessed event.id db
  | .raised event error =>
    let counted := updateEvent event.id (fun row => { row with
      attempts := row.attempts + 1
      error := some (String.ofList (error.describe.toList.take 8000)) }) db
    if dispatchMaxAttempts ≤ event.attempts + 1 then
      markProcessed event.id (poisonRun event error counted)
    else counted

/-- The rows of `workflow_runs` that the poison path has updated: the transaction of the pass
is open to its end, and so are their locks. -/
def lockRun : Handled → Program (List String)
  | .succeeded _ => pure []
  | .raised event _ =>
    if dispatchMaxAttempts ≤ event.attempts + 1 then
      commit ⟨.drainPoison, "", []⟩ fun db =>
        .ok (if (db.run? event.runId).any fun run => !run.status.terminal then [event.runId]
          else [], db)
    else pure []

/-- The statements that update the row of one of these runs. -/
def writesRun (locked : List String) (site : Site) : Bool :=
  match site.place with
  | .startReject | .tickSetRunning | .setCompleted | .setFailed _ | .reconcileSetCompleted
  | .reconcileSetRunning | .reconcileSetFailed => locked.contains site.run
  | _ => false

/-- The callbacks write on connections of their own: on a row that the pass itself has locked
they wait for the pass, and the pass for them. -/
def handleEvents (locked : List String) : List DispatchEvent → Program (List Handled)
  | [] => return []
  | event :: rest => do
    let handled ← (handleEvent cfg host fuel event).awaiting (writesRun locked)
    let poisoned ← lockRun handled
    let others ← handleEvents (locked ++ poisoned) rest
    return handled :: others

/-- `_drain_dispatch_events` after its SELECT, on Postgres (SQLite's nested connections are one).
The callbacks commit on their own connections; the bookkeeping of the whole batch commits at the
end. -/
def drainDispatchEvents (batch : List DispatchEvent) : Program Unit := do
  let handled ← handleEvents cfg host fuel [] batch
  commit ⟨.drainCommit, "", []⟩ fun db => .ok ((), handled.foldl settleEvent db)

/-- `_sweep_stuck_runs` after `list_stuck_node_run_ids`. -/
def sweepStuckRuns : List String → Program Unit
  | [] => pure ()
  | runId :: rest => do
    Prog.handle (do let _ ← Dispatcher.reconcileRun cfg host runId fuel) fun _ => pure ()
    sweepStuckRuns rest

/-- The host's restart of a run: drop what is not completed or skipped, then
`start_run`. -/
def restartRun (runId : String) : Program Unit := do
  let _ ← commit ⟨.restartDelete, runId, []⟩ (NodeQueue.deleteNonTerminalJobsForRun runId)
  let _ ← Dispatcher.startRun cfg host [] runId fuel

end NodePool

namespace InputListener

variable (cfg : Config) (host : Host) (fuel : Nat)

def reclaimAfter : Time := seconds 60

def eligible (db : Db) (row : InputSubmission) : Bool :=
  (row.status == .pending || (row.status == .processing &&
      row.claimedAt.any fun claimed => claimed < db.clock - reclaimAfter)) &&
    (db.run? row.runId).any fun run => run.project == cfg.project

/-- `_claim_pending`: flip the eligible rows and hand them out. -/
def claimPending (db : Db) : List InputSubmission × Db :=
  let claimed := (db.submissions.filter (eligible cfg db)).take 50
  let take := fun row : InputSubmission =>
    if claimed.any fun other => other.id == row.id then
      { row with status := .processing, claimedAt := some db.clock }
    else row
  (claimed, { db with submissions := db.submissions.map take })

def updateSubmission (subId : Nat) (change : InputSubmission → InputSubmission) : Txn Unit :=
  let settle := fun row : InputSubmission => if row.id == subId then change row else row
  fun db => .ok ((), { db with submissions := db.submissions.map settle })

/-- A string is tried as JSON text first. -/
def submittedValue : Json → Json
  | .str text => (cfg.jsonLoads text).getD (.str text)
  | value => value

/-- `resume_after_input` with its exception, if any, caught. -/
def resumeRow (row : InputSubmission) : Program (Option PyErr) :=
  Prog.handle
    (do let _ ← Dispatcher.resumeAfterInput cfg host row.runId row.nodeId
          (submittedValue cfg row.value) fuel
        return none)
    fun error => pure (some error)

def processRow (row : InputSubmission) : Program Unit := do
  match ← resumeRow cfg host fuel row with
  | none =>
    commit ⟨.markProcessed row.nodeId, row.runId, []⟩
      (updateSubmission row.id fun sub => { sub with status := .processed })
  | some error =>
    commit ⟨.markFailed, row.runId, []⟩ (updateSubmission row.id fun sub =>
      { sub with status := .failed, error := some error.describe })

/-- `_poll_once` after `_claim_pending`. -/
def processRows : List InputSubmission → Program Unit
  | [] => pure ()
  | row :: rest => do
    processRow cfg host fuel row
    processRows rest

end InputListener

end QueueWorkflows
