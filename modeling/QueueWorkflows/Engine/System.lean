import QueueWorkflows.Base.Pool
import QueueWorkflows.Engine.Orchestrator
import QueueWorkflows.Engine.Worker

/-! The whole engine as one transition system: the store, and every path in
flight on some process. A step is one committed transaction, one that fails on
the way, a new path, or the death of one. -/

namespace QueueWorkflows

open Transaction (Prog Actor Pool Reach follow)

/-- What a path in flight is doing, with the rows it was started for. An
execution carries its row as the claim returned it. -/
inductive Role where
  | expansion (runIds : List String)
  | drain (batch : List DispatchEvent)
  | sweep (runIds : List String)
  | listener (rows : List InputSubmission)
  | execution (job : NodeJob)
  | trip (job : NodeJob)
  | restart (runId : String)

abbrev Path := Actor Role Db Site PyErr

abbrev Sys := Pool Role Db Site PyErr

inductive Label where
  /-- The host: new runs, cancellation, patch jobs, answers, restarts. -/
  | insertRun (run : RunRow)
  | cancelRun (runId : String)
  | cancelQueued (runId : String)
  | enqueuePatch (new : NodeQueue.NewJob)
  | prioritize (jobId : Nat)
  | submit (runId nodeId : String) (value : Json)
  | restart (runId : String) (host : Host) (fuel : Nat)
  /-- Time, and the workers' liveness rows. -/
  | clock (now : Time)
  | heartbeat (beat : WorkerHeartbeat)
  /-- The orchestrator's loops and its boot recovery. -/
  | expand (host : Host) (fuel : Nat)
  | drain (host : Host) (fuel : Nat)
  | sweep (host : Host) (fuel : Nat)
  | poll (host : Host) (fuel : Nat)
  | reclaimExpired
  | reclaimAllRunning
  | reenqueueRuns
  | cancelOrphaned
  /-- Workers: a claim starts an execution, and the same row may be delivered again. -/
  | claimCpu (claim : NodeQueue.Claim) (host : Host) (hasCache : Bool)
  | claimGpu (claim : NodeQueue.Claim) (gpu : NodeQueue.GpuClaim) (host : Host) (hasCache : Bool)
  | redeliver (index : Nat) (host : Host) (hasCache : Bool)
  | trip (index : Nat) (error : String)
  | renew (index : Nat) (leaseS : Int)
  | requeueForWorker (hostLabel : String) (queue : Queue)
  /-- One transaction of a path, one that fails, and a crash. -/
  | advance (index : Nat)
  | blip (index : Nat) (error : PyErr)
  | crash (index : Nat)

/-- The in-flight execution a path is, if it is one. -/
def executing (path : Path) : Option NodeJob :=
  match path.role with
  | .execution job => if path.prog.inFlight then some job else none
  | _ => none

namespace Sys

def execution? (sys : Sys) (index : Nat) : Option NodeJob :=
  sys.actors[index]?.bind executing

/-- The in-flight executions, in the order of their claims. -/
def executions (sys : Sys) : List NodeJob :=
  sys.actors.filterMap executing

/-- The rows in-flight drains hold `FOR UPDATE`. -/
def lockedEvents (sys : Sys) : List Nat :=
  sys.actors.flatMap fun actor =>
    match actor.role with
    | .drain batch => if actor.prog.inFlight then batch.map DispatchEvent.id else []
    | _ => []

/-- One statement on a connection of its own. -/
def commit {α : Type} (sys : Sys) (act : Txn α) : Option Sys :=
  match act sys.store with
  | .ok (_, db) => some { sys with store := db }
  | .error _ => none

/-- A claim, followed by the execution of the row it returned. -/
def start (cfg : Config) (sys : Sys) (host : Host) (hasCache : Bool)
    (claim : Txn (Option NodeJob)) : Option Sys :=
  match claim sys.store with
  | .ok (some job, db) => some
      (Pool.spawn { sys with store := db } (.execution job)
        (ClaimWorker.runNode cfg host hasCache job))
  | _ => none

end Sys

/-- The node id of a patch job is outside the run's DAG. -/
def outsideDag (cfg : Config) (db : Db) (new : NodeQueue.NewJob) : Bool :=
  (db.run? new.runId).all fun run =>
    match Dispatcher.dagOf cfg run with
    | .ok nodes => !nodes.any fun node => node.id == new.nodeId
    | .error _ => true

def insertRun (run : RunRow) : Txn Unit := fun db =>
  match db.runs.insert? { run with status := .queued } with
  | some runs => .ok ((), { db with runs := runs })
  | none => .error ⟨.integrityError, "workflow_runs_pkey"⟩

def cancelRun (runId : String) : Txn Unit := fun db =>
  (updateRuns (fun run => run.id == runId && !run.status.terminal) fun run =>
    { run with status := .cancelled, finishedAt := some db.clock }).map (fun _ => ()) db

def submitInput (runId nodeId : String) (value : Json) : Txn Unit := fun db =>
  let row : InputSubmission :=
    { id := db.submissions.length, runId := runId, nodeId := nodeId, value := value }
  .ok ((), { db with submissions := db.submissions ++ [row] })

def beat (row : WorkerHeartbeat) : Txn Unit := fun db =>
  let others := db.heartbeats.filter fun other =>
    !(other.hostLabel == row.hostLabel && other.queue == row.queue && other.project == row.project)
  let fresh := { row with lastSeen := db.clock, lastFlaggedDeadAt := none }
  .ok ((), { db with heartbeats := others ++ [fresh] })

def step (cfg : Config) (sys : Sys) : Label → Option Sys
  | .insertRun run => sys.commit (insertRun run)
  | .cancelRun runId => sys.commit (cancelRun runId)
  | .cancelQueued runId => sys.commit (NodeQueue.cancelQueuedJobsForRun runId)
  | .enqueuePatch new =>
    if outsideDag cfg sys.store new then sys.commit (NodeQueue.enqueueNodeJob new) else none
  | .prioritize jobId => sys.commit (NodeQueue.prioritizeNodeJob jobId)
  | .submit runId nodeId value => sys.commit (submitInput runId nodeId value)
  | .restart runId host fuel =>
    some (sys.spawn (.restart runId) (NodePool.restartRun cfg host fuel runId))
  | .clock now =>
    if sys.store.clock ≤ now then some { sys with store := { sys.store with clock := now } }
    else none
  | .heartbeat row => sys.commit (beat row)
  | .expand host fuel =>
    let runIds := RunStore.listQueuedNodeRunIds cfg.project 50 sys.store
    some (sys.spawn (.expansion runIds) (NodePool.expandRuns cfg host fuel runIds))
  | .drain host fuel =>
    let batch := NodePool.drainBatch cfg sys.lockedEvents sys.store
    some (sys.spawn (.drain batch) (NodePool.drainDispatchEvents cfg host fuel batch))
  | .sweep host fuel =>
    let runIds := RunStore.listStuckNodeRunIds cfg.project sys.store
    some (sys.spawn (.sweep runIds) (NodePool.sweepStuckRuns cfg host fuel runIds))
  | .poll host fuel =>
    let (rows, db) := InputListener.claimPending cfg sys.store
    some (Pool.spawn { sys with store := db } (.listener rows)
      (InputListener.processRows cfg host fuel rows))
  | .reclaimExpired => sys.commit NodeQueue.reclaimExpiredLeases
  | .reclaimAllRunning => sys.commit (NodeQueue.reclaimAllRunningForResume cfg.project)
  | .reenqueueRuns => sys.commit (RunStore.reenqueueRunningForResume cfg.project)
  | .cancelOrphaned => sys.commit (NodeQueue.cancelOrphanedQueuedJobs cfg.project)
  | .claimCpu claim host hasCache =>
    sys.start cfg host hasCache (NodeQueue.claimNextCpuJob claim)
  | .claimGpu claim gpu host hasCache =>
    sys.start cfg host hasCache (NodeQueue.claimNextGpuJob claim gpu)
  | .redeliver index host hasCache =>
    sys.actors[index]?.bind fun actor =>
      match actor.role with
      | .execution job => some
          (sys.spawn (.execution job) (ClaimWorker.runNode cfg host hasCache job))
      | _ => none
  | .trip index error =>
    (sys.execution? index).map fun job =>
      sys.spawn (.trip job) (ClaimWorker.watchdogTrip cfg job error)
  | .renew index leaseS =>
    (sys.execution? index).bind fun job =>
      job.claimedBy.bind fun claimedBy => sys.commit (NodeQueue.renewLease job.id claimedBy leaseS)
  | .requeueForWorker hostLabel queue =>
    sys.commit (NodeQueue.requeueRunningForWorker hostLabel queue cfg.project)
  | .advance index => sys.advance index
  | .blip index error => sys.blip index error
  | .crash index => some (sys.crash index)

def Sys.empty : Sys := ⟨Db.empty, []⟩

/-- No condition on the steps of a run. -/
def anyStep (_ : Sys) (_ : Label) : Bool := true

/-! ### A sample -/

namespace Sample

/-- An input step, a pipeline step beside it, and one that waits for the input. -/
def workflow : Workflow where
  steps := [
    { id := "ask", kind := .input, widget := "turnout", target := some "answer" },
    { id := "left", kind := .pipeline, pipeline := "one" },
    { id := "right", kind := .pipeline, pipeline := "one", dependsOn := ["ask"] }]

def config : Config where
  workflowLoader _ := .ok workflow
  pipelineSchemaLoader _ := .ok [{ id := "n" }]
  resolveRef value _ := .ok value
  literalEval _ := none
  jsonLoads _ := none
  strOf _ := ""

def host : Host where
  stepFiles _ := none
  isFile _ _ := .ok false
  copyFile _ _ _ := .ok ()
  buildInputSpec _ _ _ := .ok (.obj [])
  requireModel _ := .ok ()
  enterContext _ := .ok ()
  invoke _ _ := .ok (.dict [])

def run : RunRow where
  id := "r"
  workflowName := "w"

/-- A run is inserted and expanded: rows 0 (`ask`) and 1 (`left/n`). -/
def expanded : List Label :=
  [.insertRun run, .expand host 2] ++ List.replicate 7 (.advance 0)

/-- The input is answered, which adds row 2 (`right/n`). -/
def answered : List Label :=
  expanded ++ [.submit "r" "ask" (.str "yes"), .poll host 2] ++ List.replicate 10 (.advance 1)

/-- Both pipeline rows are executed and their events drained. -/
def completed : List Label :=
  answered ++ [.claimCpu { host := "a" } host false] ++ List.replicate 5 (.advance 2) ++
    [.claimCpu { host := "b" } host false] ++ List.replicate 5 (.advance 3) ++
    [.drain host 2] ++ List.replicate 11 (.advance 4)

/-- The state at the end of a schedule. -/
def after (labels : List Label) : Sys :=
  (follow (step config) anyStep Sys.empty labels).getD Sys.empty

theorem reach_after (labels : List Label)
    (able : (follow (step config) anyStep Sys.empty labels).isSome = true) :
    Reach (step config) anyStep Sys.empty (after labels) :=
  Reach.follow_getD labels able

end Sample

/-! ### What a step can be -/

/-- A single statement that belongs to no path in flight. -/
inductive Statement (cfg : Config) (before after : Db) : Prop
  | insertRun (run : RunRow) (done : QueueWorkflows.insertRun run before = .ok ((), after))
  | cancelRun (runId : String) (done : QueueWorkflows.cancelRun runId before = .ok ((), after))
  | cancelQueued (runId : String)
      (done : NodeQueue.cancelQueuedJobsForRun runId before = .ok ((), after))
  | enqueuePatch (new : NodeQueue.NewJob) (outside : outsideDag cfg before new = true) (id : Nat)
      (done : NodeQueue.enqueueNodeJob new before = .ok (id, after))
  | prioritize (jobId : Nat) (row : Option NodeJob)
      (done : NodeQueue.prioritizeNodeJob jobId before = .ok (row, after))
  | submit (runId nodeId : String) (value : Json)
      (done : submitInput runId nodeId value before = .ok ((), after))
  | clock (now : Time) (later : before.clock ≤ now) (done : after = { before with clock := now })
  | heartbeat (row : WorkerHeartbeat) (done : beat row before = .ok ((), after))
  | claimPending (done : after = (InputListener.claimPending cfg before).2)
  | reclaimExpired (rows : List NodeJob)
      (done : NodeQueue.reclaimExpiredLeases before = .ok (rows, after))
  | reclaimAllRunning (rows : List NodeJob)
      (done : NodeQueue.reclaimAllRunningForResume cfg.project before = .ok (rows, after))
  | reenqueueRuns (rows : List RunRow)
      (done : RunStore.reenqueueRunningForResume cfg.project before = .ok (rows, after))
  | cancelOrphaned (done : NodeQueue.cancelOrphanedQueuedJobs cfg.project before = .ok ((), after))
  | renew (jobId : Nat) (claimedBy : String) (leaseS : Int) (renewed : Bool)
      (done : NodeQueue.renewLease jobId claimedBy leaseS before = .ok (renewed, after))
  | requeueForWorker (hostLabel : String) (queue : Queue) (rows : List NodeJob)
      (done : NodeQueue.requeueRunningForWorker hostLabel queue cfg.project before =
        .ok (rows, after))

/-- The paths that may start under a label, in a system whose store is then `db`. -/
inductive Starts (cfg : Config) (sys : Sys) : Label → Db → Role → Program Unit → Prop
  | restart (runId : String) (host : Host) (fuel : Nat) :
      Starts cfg sys (.restart runId host fuel) sys.store (.restart runId)
        (NodePool.restartRun cfg host fuel runId)
  | expand (host : Host) (fuel : Nat) :
      Starts cfg sys (.expand host fuel) sys.store
        (.expansion (RunStore.listQueuedNodeRunIds cfg.project 50 sys.store))
        (NodePool.expandRuns cfg host fuel
          (RunStore.listQueuedNodeRunIds cfg.project 50 sys.store))
  | drain (host : Host) (fuel : Nat) :
      Starts cfg sys (.drain host fuel) sys.store
        (.drain (NodePool.drainBatch cfg sys.lockedEvents sys.store))
        (NodePool.drainDispatchEvents cfg host fuel
          (NodePool.drainBatch cfg sys.lockedEvents sys.store))
  | sweep (host : Host) (fuel : Nat) :
      Starts cfg sys (.sweep host fuel) sys.store
        (.sweep (RunStore.listStuckNodeRunIds cfg.project sys.store))
        (NodePool.sweepStuckRuns cfg host fuel (RunStore.listStuckNodeRunIds cfg.project sys.store))
  | poll (host : Host) (fuel : Nat) :
      Starts cfg sys (.poll host fuel) (InputListener.claimPending cfg sys.store).2
        (.listener (InputListener.claimPending cfg sys.store).1)
        (InputListener.processRows cfg host fuel (InputListener.claimPending cfg sys.store).1)
  | claimCpu (claim : NodeQueue.Claim) (host : Host) (hasCache : Bool) (job : NodeJob) (db : Db)
      (claimed : NodeQueue.claimNextCpuJob claim sys.store = .ok (some job, db)) :
      Starts cfg sys (.claimCpu claim host hasCache) db (.execution job)
        (ClaimWorker.runNode cfg host hasCache job)
  | claimGpu (claim : NodeQueue.Claim) (gpu : NodeQueue.GpuClaim) (host : Host) (hasCache : Bool)
      (job : NodeJob) (db : Db)
      (claimed : NodeQueue.claimNextGpuJob claim gpu sys.store = .ok (some job, db)) :
      Starts cfg sys (.claimGpu claim gpu host hasCache) db (.execution job)
        (ClaimWorker.runNode cfg host hasCache job)
  | redeliver (index : Nat) (actor : Path) (job : NodeJob) (host : Host) (hasCache : Bool)
      (present : sys.actors[index]? = some actor) (role : actor.role = .execution job) :
      Starts cfg sys (.redeliver index host hasCache) sys.store (.execution job)
        (ClaimWorker.runNode cfg host hasCache job)
  | trip (index : Nat) (actor : Path) (job : NodeJob) (error : String)
      (present : sys.actors[index]? = some actor) (role : actor.role = .execution job) :
      Starts cfg sys (.trip index error) sys.store (.trip job)
        (ClaimWorker.watchdogTrip cfg job error)

/-- A claim that handed out a row. -/
def Claims (before after : Db) (job : NodeJob) : Prop :=
  ∃ claim queue capability rank,
    NodeQueue.claimNext claim queue capability rank before = .ok (some job, after)

theorem Starts.store {cfg : Config} {sys : Sys} {label : Label} {db : Db} {role : Role}
    {prog : Program Unit} (starts : Starts cfg sys label db role prog) :
    db = sys.store ∨ Statement cfg sys.store db ∨ ∃ job, Claims sys.store db job := by
  cases starts with
  | poll host fuel => exact .inr (.inl (.claimPending rfl))
  | claimCpu claim host hasCache job db claimed =>
    exact .inr (.inr ⟨job, claim, _, _, _, claimed⟩)
  | claimGpu claim gpu host hasCache job db claimed =>
    exact .inr (.inr ⟨job, claim, _, _, _, claimed⟩)
  | _ => exact .inl rfl

theorem Sys.commit_cases {α : Type} {sys after : Sys} {act : Txn α}
    (done : sys.commit act = some after) :
    ∃ value, act sys.store = .ok (value, after.store) ∧ after.actors = sys.actors := by
  unfold Sys.commit at done
  split at done
  · rename_i value db committed
    cases done
    exact ⟨value, committed, rfl⟩
  · cases done

theorem Sys.start_cases {cfg : Config} {sys after : Sys} {host : Host} {hasCache : Bool}
    {claim : Txn (Option NodeJob)} (done : sys.start cfg host hasCache claim = some after) :
    ∃ job, claim sys.store = .ok (some job, after.store) ∧
      after.actors = sys.actors ++ [⟨.execution job, ClaimWorker.runNode cfg host hasCache job⟩] := by
  unfold Sys.start at done
  split at done
  · rename_i job db committed
    cases done
    exact ⟨job, committed, rfl⟩
  · cases done

theorem Sys.execution?_cases {sys : Sys} {index : Nat} {job : NodeJob}
    (found : sys.execution? index = some job) :
    ∃ actor, sys.actors[index]? = some actor ∧ actor.role = .execution job ∧
      actor.prog.inFlight = true := by
  obtain ⟨actor, present, running⟩ := Option.bind_eq_some_iff.mp found
  unfold executing at running
  split at running
  · rename_i claimed role
    split at running
    · rename_i flight
      cases running
      exact ⟨actor, present, role, flight⟩
    · cases running
  · cases running

/-- A step is a statement, a new path, or one path's own transaction, failure or death. -/
theorem step_cases {cfg : Config} {sys after : Sys} {label : Label}
    (stepped : step cfg sys label = some after) :
    (Statement cfg sys.store after.store ∧ after.actors = sys.actors) ∨
    (∃ role prog, Starts cfg sys label after.store role prog ∧
      after.actors = sys.actors ++ [⟨role, prog⟩]) ∨
    (∃ index, label = .advance index ∧ sys.advance index = some after) ∨
    (∃ index error, label = .blip index error ∧ sys.blip index error = some after) ∨
    (∃ index, label = .crash index ∧ after = sys.crash index) := by
  unfold step at stepped
  cases label with
  | insertRun run =>
    obtain ⟨_, done, same⟩ := Sys.commit_cases stepped
    exact .inl ⟨.insertRun run done, same⟩
  | cancelRun runId =>
    obtain ⟨_, done, same⟩ := Sys.commit_cases stepped
    exact .inl ⟨.cancelRun runId done, same⟩
  | cancelQueued runId =>
    obtain ⟨_, done, same⟩ := Sys.commit_cases stepped
    exact .inl ⟨.cancelQueued runId done, same⟩
  | enqueuePatch new =>
    dsimp only at stepped
    split at stepped
    · rename_i outside
      obtain ⟨id, done, same⟩ := Sys.commit_cases stepped
      exact .inl ⟨.enqueuePatch new outside id done, same⟩
    · cases stepped
  | prioritize jobId =>
    obtain ⟨row, done, same⟩ := Sys.commit_cases stepped
    exact .inl ⟨.prioritize jobId row done, same⟩
  | submit runId nodeId value =>
    obtain ⟨_, done, same⟩ := Sys.commit_cases stepped
    exact .inl ⟨.submit runId nodeId value done, same⟩
  | restart runId host fuel =>
    cases stepped
    exact .inr (.inl ⟨_, _, .restart runId host fuel, rfl⟩)
  | clock now =>
    dsimp only at stepped
    split at stepped
    · rename_i later
      cases stepped
      exact .inl ⟨.clock now later rfl, rfl⟩
    · cases stepped
  | heartbeat row =>
    obtain ⟨_, done, same⟩ := Sys.commit_cases stepped
    exact .inl ⟨.heartbeat row done, same⟩
  | expand host fuel =>
    cases stepped
    exact .inr (.inl ⟨_, _, .expand host fuel, rfl⟩)
  | drain host fuel =>
    cases stepped
    exact .inr (.inl ⟨_, _, .drain host fuel, rfl⟩)
  | sweep host fuel =>
    cases stepped
    exact .inr (.inl ⟨_, _, .sweep host fuel, rfl⟩)
  | poll host fuel =>
    cases stepped
    exact .inr (.inl ⟨_, _, .poll host fuel, rfl⟩)
  | reclaimExpired =>
    obtain ⟨rows, done, same⟩ := Sys.commit_cases stepped
    exact .inl ⟨.reclaimExpired rows done, same⟩
  | reclaimAllRunning =>
    obtain ⟨rows, done, same⟩ := Sys.commit_cases stepped
    exact .inl ⟨.reclaimAllRunning rows done, same⟩
  | reenqueueRuns =>
    obtain ⟨rows, done, same⟩ := Sys.commit_cases stepped
    exact .inl ⟨.reenqueueRuns rows done, same⟩
  | cancelOrphaned =>
    obtain ⟨_, done, same⟩ := Sys.commit_cases stepped
    exact .inl ⟨.cancelOrphaned done, same⟩
  | claimCpu claim host hasCache =>
    obtain ⟨job, done, spawned⟩ := Sys.start_cases stepped
    exact .inr (.inl ⟨_, _, .claimCpu claim host hasCache job _ done, spawned⟩)
  | claimGpu claim gpu host hasCache =>
    obtain ⟨job, done, spawned⟩ := Sys.start_cases stepped
    exact .inr (.inl ⟨_, _, .claimGpu claim gpu host hasCache job _ done, spawned⟩)
  | redeliver index host hasCache =>
    obtain ⟨actor, present, again⟩ := Option.bind_eq_some_iff.mp stepped
    split at again
    · rename_i job role
      cases again
      exact .inr (.inl ⟨_, _, .redeliver index actor job host hasCache present role, rfl⟩)
    · cases again
  | trip index error =>
    obtain ⟨job, found, rfl⟩ := Option.map_eq_some_iff.mp stepped
    obtain ⟨actor, present, role, -⟩ := Sys.execution?_cases found
    exact .inr (.inl ⟨_, _, .trip index actor job error present role, rfl⟩)
  | renew index leaseS =>
    obtain ⟨job, -, owned⟩ := Option.bind_eq_some_iff.mp stepped
    obtain ⟨claimedBy, -, committed⟩ := Option.bind_eq_some_iff.mp owned
    obtain ⟨renewed, done, same⟩ := Sys.commit_cases committed
    exact .inl ⟨.renew job.id claimedBy leaseS renewed done, same⟩
  | requeueForWorker hostLabel queue =>
    obtain ⟨rows, done, same⟩ := Sys.commit_cases stepped
    exact .inl ⟨.requeueForWorker hostLabel queue rows done, same⟩
  | advance index => exact .inr (.inr (.inl ⟨index, rfl, stepped⟩))
  | blip index error => exact .inr (.inr (.inr (.inl ⟨index, error, rfl, stepped⟩)))
  | crash index =>
    cases stepped
    exact .inr (.inr (.inr (.inr ⟨index, rfl, rfl⟩)))

/-- The rule by which a property of single paths is kept by the whole system. -/
theorem step_all {cfg : Config} {R : Db → Db → Prop} {holds : Path → Db → Prop}
    (rule : Pool.Rule R holds) {sys after : Sys} {label : Label}
    (unmoved : ∀ db, R db db)
    (statement : Statement cfg sys.store after.store → R sys.store after.store)
    (claims : ∀ job, Claims sys.store after.store job → R sys.store after.store)
    (starts : ∀ role prog, Starts cfg sys label after.store role prog → sys.All holds →
      holds ⟨role, prog⟩ after.store)
    (all : sys.All holds) (stepped : step cfg sys label = some after) :
    R sys.store after.store ∧ after.All holds := by
  rcases step_cases stepped with ⟨stmt, same⟩ | ⟨role, prog, begun, spawned⟩ |
    ⟨index, -, advanced⟩ | ⟨index, error, -, failed⟩ | ⟨index, -, rfl⟩
  · have moved := statement stmt
    refine ⟨moved, fun actor present => rule.stable (all actor (same ▸ present)) moved⟩
  · have moved : R sys.store after.store := by
      rcases begun.store with unchanged | stmt | ⟨job, claimed⟩
      · exact unchanged ▸ unmoved _
      · exact statement stmt
      · exact claims job claimed
    refine ⟨moved, fun actor present => ?_⟩
    rw [spawned] at present
    rcases List.mem_append.mp present with old | last
    · exact rule.stable (all actor old) moved
    · rw [List.mem_singleton.mp last]
      exact starts role prog begun all
  · exact all.advance rule advanced
  · obtain ⟨_, _, _, _, store, _⟩ := Pool.blip_cases failed
    exact ⟨store ▸ unmoved _, all.blip rule failed⟩
  · exact ⟨unmoved _, all.crash index⟩

/-- What every path does from its start it does in every reachable state. -/
theorem reach_sited {cfg : Config} {ok : Sys → Label → Bool}
    {S : Role → Site → Db → Db → Prop}
    (starts : ∀ {sys label db role prog}, Starts cfg sys label db role prog →
      prog.Sited (S role))
    {sys : Sys} (reached : Reach (step cfg) ok Sys.empty sys) :
    sys.All fun path _ => path.prog.Sited (S path.role) := by
  have rule : Pool.Rule (fun _ _ => True) fun (path : Path) (_ : Db) =>
      path.prog.Sited (S path.role) := {
    stable := fun held _ => held
    step := fun held stepped => ⟨trivial, (Prog.Sited.step held stepped).2⟩
    blip := fun held failed => Prog.Sited.blip held failed }
  refine reached.invariant (by simp [Sys.empty, Pool.All]) fun state label after all _ stepped => ?_
  exact (step_all rule (fun _ => trivial) (fun _ => trivial) (fun _ _ => trivial)
    (fun _ _ begun _ => starts begun) all stepped).2

/-- Every step is a statement, a claim, or a transaction of some path at its site. -/
theorem step_sited {cfg : Config} {ok : Sys → Label → Bool} {S : Role → Site → Db → Db → Prop}
    (starts : ∀ {sys label db role prog}, Starts cfg sys label db role prog →
      prog.Sited (S role))
    {sys after : Sys} {label : Label} (reached : Reach (step cfg) ok Sys.empty sys)
    (stepped : step cfg sys label = some after) :
    after.store = sys.store ∨ Statement cfg sys.store after.store ∨
      (∃ job, Claims sys.store after.store job) ∨
      ∃ index path site, label = .advance index ∧ sys.actors[index]? = some path ∧
        path.prog.site? = some site ∧ S path.role site sys.store after.store := by
  rcases step_cases stepped with ⟨statement, -⟩ | ⟨role, prog, begun, -⟩ |
    ⟨index, rfl, advanced⟩ | ⟨index, error, -, failed⟩ | ⟨index, -, rfl⟩
  · exact .inr (.inl statement)
  · rcases begun.store with same | statement | claims
    · exact .inl same
    · exact .inr (.inl statement)
    · exact .inr (.inr (.inl claims))
  · obtain ⟨path, rest, found, moved, -⟩ := Pool.advance_cases advanced
    obtain ⟨⟨site, stands, same | allowed⟩, -⟩ :=
      (reach_sited starts reached path (List.mem_of_getElem? found)).step moved
    · exact .inl same
    · exact .inr (.inr (.inr ⟨index, path, site, rfl, found, stands, allowed⟩))
  · obtain ⟨_, _, _, _, store, _⟩ := Pool.blip_cases failed
    exact .inl store
  · exact .inl rfl

theorem step_moves {cfg : Config} {ok : Sys → Label → Bool} {G : Role → Db → Db → Prop}
    (starts : ∀ {sys label db role prog}, Starts cfg sys label db role prog → prog.Always (G role))
    {sys after : Sys} {label : Label} (reached : Reach (step cfg) ok Sys.empty sys)
    (stepped : step cfg sys label = some after) :
    after.store = sys.store ∨ Statement cfg sys.store after.store ∨
      (∃ job, Claims sys.store after.store job) ∨
      ∃ index path, label = .advance index ∧ sys.actors[index]? = some path ∧
        G path.role sys.store after.store := by
  rcases step_sited (S := fun role _ => G role) starts reached stepped with
    same | statement | claims | ⟨index, path, -, labelled, found, -, moved⟩
  · exact .inl same
  · exact .inr (.inl statement)
  · exact .inr (.inr (.inl claims))
  · exact .inr (.inr (.inr ⟨index, path, labelled, found, moved⟩))

end QueueWorkflows
