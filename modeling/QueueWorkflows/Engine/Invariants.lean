import QueueWorkflows.Engine.Causality

/-! The remaining paths, and what holds in every state of the whole system: the
rows are causally closed, and a completed run is a finished one. -/

namespace QueueWorkflows

open Relation (ReflTransGen)
open Transaction (Prog Pool Reach follow)
open Transaction.Prog (Safe commit ofExcept stays)
open Dispatcher (dagOf)

/-- Row ids come from the sequence. -/
def Bounded (db : Db) : Prop :=
  ∀ job ∈ db.jobs.rows, job.id < db.nextJob

section Stable

variable {cfg : Config} {before after : Db}

theorem Bounded.later (evolves : Evolves cfg before after) (now : Bounded before) :
    Bounded after := by
  intro job member
  rcases evolves.rows job member with ⟨old, present, moved⟩ | ⟨-, below, -⟩
  · exact moved.id ▸ (now old present).trans_le evolves.sequence
  · exact below

theorem Bounded.since (now : Bounded before) (moved : ReflTransGen (Evolves cfg) before after) :
    Bounded after :=
  stays Bounded (fun _ _ => Bounded.later) moved now

theorem Bounded.notSkipped {db : Db} {job : NodeJob} (bounded : Bounded db)
    (member : job ∈ db.jobs.rows) (status : job.status ≠ .skipped) : NotSkipped job.id db := by
  refine ⟨bounded job member, fun other present same skipped => ?_⟩
  rw [Db.eq_of_id present member same] at skipped
  exact status skipped

/-- Only the two tables and the sequence matter. -/
theorem Evolves.congr {final : Db} (evolves : Evolves cfg before after)
    (jobs : final.jobs = after.jobs) (runs : final.runs = after.runs)
    (next : final.nextJob = after.nextJob) : Evolves cfg before final where
  sequence := next ▸ evolves.sequence
  rows := by
    rw [jobs, next]
    exact evolves.rows
  kept := by
    rw [jobs]
    exact evolves.kept
  runs := by
    rw [runs]
    exact evolves.runs
  present := by
    rw [runs]
    exact evolves.present

end Stable

/-! ### Workers -/

section Workers

variable {cfg : Config} {host : Host} {db : Db} {job : NodeJob}

theorem markWithEvent_cases {marking : Txn (Option NodeJob)} {runId nodeId : String}
    {kind : EventKind} {outcome result : Executor.Outcome} {after : Db}
    (done : Executor.markWithEvent marking runId nodeId kind outcome db = .ok (result, after)) :
    (result = .skipped ∧ marking db = .ok (none, after)) ∨
    ∃ row mid, marking db = .ok (some row, mid) ∧ result = outcome ∧
      NodeQueue.enqueueDispatchEventInTxn runId nodeId kind mid = .ok ((), after) := by
  simp only [Executor.markWithEvent, bind, StateT.bind, Except.bind] at done
  cases marked : marking db with
  | error error => simp [marked] at done
  | ok pair =>
    obtain ⟨row, mid⟩ := pair
    cases row with
    | none =>
      simp only [marked] at done
      cases done
      exact .inl ⟨rfl, rfl⟩
    | some row =>
      simp only [marked] at done
      cases done
      exact .inr ⟨row, mid, rfl, rfl, rfl⟩

theorem evolves_enqueueDispatchEvent {runId nodeId : String} {kind : EventKind} {before after : Db}
    (evolves : Evolves cfg before db)
    (done : NodeQueue.enqueueDispatchEventInTxn runId nodeId kind db = .ok ((), after)) :
    Evolves cfg before after := by
  cases done
  exact evolves.congr rfl rfl rfl

theorem evolves_markWithEvent {marking : Txn (Option NodeJob)} {runId nodeId : String}
    {kind : EventKind} {outcome result : Executor.Outcome} {after : Db}
    (marks : ∀ row mid, marking db = .ok (row, mid) → Evolves cfg db mid)
    (done : Executor.markWithEvent marking runId nodeId kind outcome db = .ok (result, after)) :
    Evolves cfg db after := by
  rcases markWithEvent_cases done with ⟨-, unmarked⟩ | ⟨row, mid, marked, -, written⟩
  · exact marks none after unmarked
  · exact evolves_enqueueDispatchEvent (marks (some row) mid marked) written

theorem evolves_markCompleted {jobId : Nat} {delta : Json} {row : Option NodeJob} {after : Db}
    (clear : NotSkipped jobId db)
    (done : NodeQueue.markCompletedInTxn jobId delta db = .ok (row, after)) :
    Evolves cfg db after := by
  cases done
  exact Evolves.of_mark (fun _ => rfl) (fun _ => by simp) clear

theorem evolves_markFailed {jobId : Nat} {error : String} {row : Option NodeJob} {after : Db}
    (clear : NotSkipped jobId db)
    (done : NodeQueue.markFailedInTxn jobId error db = .ok (row, after)) :
    Evolves cfg db after := by
  cases done
  exact Evolves.of_mark (fun _ => rfl) (fun _ => by simp) clear

theorem sound_finaliseFailed {error : String} (clear : NotSkipped job.id db) :
    Sound cfg (Executor.finaliseFailed job error) db :=
  sound_commit fun _ moved _ _ done =>
    evolves_markWithEvent (fun _ _ => evolves_markFailed (clear.since moved)) done

theorem sound_finaliseCompleted {delta : Json} (clear : NotSkipped job.id db) :
    Sound cfg (Executor.finaliseCompleted job delta) db :=
  sound_commit fun _ moved _ _ done =>
    evolves_markWithEvent (fun _ _ => evolves_markCompleted (clear.since moved)) done

theorem sound_settleError {short error : String} (clear : NotSkipped job.id db) :
    Sound cfg (Executor.settleError cfg job short error) db := by
  unfold Executor.settleError Executor.requeueForTransientGpu
  split
  · split
    · exact sound_finaliseFailed clear
    · refine Safe.bind (sound_commit fun _ _ _ _ done => evolves_requeueJobForRetry done)
        fun requeued found moved _ => ?_
      cases requeued with
      | none => exact sound_finaliseFailed (clear.since moved)
      | some row => trivial
  · exact sound_finaliseFailed clear

theorem sound_resolveInputsForJob : Sound cfg (Dispatcher.resolveInputsForJob cfg host job) db := by
  unfold Dispatcher.resolveInputsForJob
  split
  · trivial
  · refine safe_getRun.bind fun row found moved _ => ?_
    cases row with
    | none => exact sound_ofExcept _
    | some run =>
      refine sound_readSiblings.bind fun siblings _ _ _ => ?_
      exact (sound_ofExcept _).bind fun context _ _ _ => sound_ofExcept _

theorem sound_invokeNode (clear : NotSkipped job.id db) :
    Sound cfg (Executor.invokeNode cfg host job) db := by
  refine sound_resolveInputsForJob.bind fun inputs found moved _ => ?_
  refine Safe.bind (Safe.handle (sound_commit fun _ _ _ _ done => ?_) fun _ _ _ => trivial)
    fun _ later ahead _ => ?_
  · cases done
    exact Evolves.of_updateJobs fun job _ _ => .of_same_status rfl rfl rfl ⟨rfl, rfl, rfl⟩
  · refine (sound_ofExcept _).bind fun _ last onward _ => ?_
    have path := (moved.trans ahead).trans onward
    split
    · exact sound_settleError (clear.since path)
    · exact (sound_ofExcept _).bind fun delta _ further _ =>
        sound_finaliseCompleted (clear.since (path.trans further))

theorem sound_executeNode {hasCache : Bool} (clear : NotSkipped job.id db) :
    Sound cfg (Executor.executeNode cfg host hasCache job) db := by
  refine safe_getRun.bind fun _ found moved _ => ?_
  have clear' := clear.since moved
  split
  · exact sound_invokeNode clear'
  · split
    · split
      · exact sound_invokeNode clear'
      · exact sound_settleError clear'
    · exact sound_finaliseFailed clear'

theorem evolves_parkInput {after : Db} (clear : NotSkipped job.id db)
    (done : ClaimWorker.parkInput job db = .ok ((), after)) : Evolves cfg db after := by
  cases done
  have marked : Evolves cfg db { db with
      jobs := db.jobs.update (fun row => row.id == job.id && !row.status.closed)
        (fun row => { row with status := .awaitingInput }) (by intro; rfl) } :=
    Evolves.of_mark (fun _ => rfl) (fun _ => by simp) clear
  exact marked.congr rfl rfl rfl

theorem sound_runNode {hasCache : Bool} (clear : NotSkipped job.id db) :
    Sound cfg (ClaimWorker.runNode cfg host hasCache job) db := by
  unfold ClaimWorker.runNode
  split
  · exact sound_commit fun _ moved _ _ done => evolves_parkInput (clear.since moved) done
  · exact (sound_executeNode clear).bind fun _ _ _ _ => trivial

theorem failJobInTxn_cases {jobId : Nat} {error : String} {after : Db}
    (done : ClaimWorker.failJobInTxn jobId error db = .ok ((), after)) :
    NodeQueue.markFailedInTxn jobId error db = .ok (none, after) ∨
    ∃ row mid, NodeQueue.markFailedInTxn jobId error db = .ok (some row, mid) ∧
      NodeQueue.enqueueDispatchEventInTxn row.runId row.nodeId .failed mid = .ok ((), after) := by
  simp only [ClaimWorker.failJobInTxn, bind, StateT.bind, Except.bind] at done
  cases marked : NodeQueue.markFailedInTxn jobId error db with
  | error error => simp [marked] at done
  | ok pair =>
    obtain ⟨row, mid⟩ := pair
    simp only [marked] at done
    cases row with
    | none =>
      cases done
      exact .inl rfl
    | some row => exact .inr ⟨row, mid, rfl, done⟩

theorem evolves_failJobInTxn {jobId : Nat} {error : String} {after : Db}
    (clear : NotSkipped jobId db)
    (done : ClaimWorker.failJobInTxn jobId error db = .ok ((), after)) : Evolves cfg db after := by
  rcases failJobInTxn_cases done with unmarked | ⟨row, mid, marked, written⟩
  · exact evolves_markFailed clear unmarked
  · exact evolves_enqueueDispatchEvent (evolves_markFailed clear marked) written

theorem sound_watchdogTrip {error : String} (clear : NotSkipped job.id db) :
    Sound cfg (ClaimWorker.watchdogTrip cfg job error) db := by
  have read : Sound cfg ((commit ⟨.tripRead, job.runId, []⟩ (NodeQueue.getNodeJob job.id)).handle
      fun _ => pure none) db := by
    refine Safe.handle (sound_commit fun _ _ _ _ done => ?_) fun _ _ _ => trivial
    cases done
    exact .refl cfg _
  refine read.bind fun row found moved _ => ?_
  split
  · refine Safe.handle (Safe.bind (sound_commit fun _ _ _ _ done => ?_) fun _ _ _ _ => trivial)
      fun _ _ _ => trivial
    exact evolves_requeueJobForRetry done
  · refine Safe.handle (sound_commit fun _ ahead _ _ done => ?_) fun _ _ _ => trivial
    exact evolves_failJobInTxn ((clear.since moved).since ahead) done

end Workers

/-! ### The orchestrator's loops -/

section Loops

variable {cfg : Config} {host : Host} {db : Db} {fuel : Nat}

theorem sound_resumeAfterInput {runId nodeId : String} {value : Json} (bounded : Bounded db) :
    Sound cfg (Dispatcher.resumeAfterInput cfg host runId nodeId value fuel) db := by
  refine safe_listJobs.bind fun existing found moved read => ?_
  subst read
  split
  · trivial
  · rename_i job located
    have member := (Db.mem_jobsOf.mp (List.mem_of_find?_eq_some located)).1
    split
    · rename_i parked
      have clear : NotSkipped job.id found := by
        refine (bounded.since moved).notSkipped member fun skipped => ?_
        simp [skipped] at parked
      refine (sound_ofExcept _).bind fun delta later ahead _ => ?_
      refine Safe.bind (sound_commit fun _ onward _ _ done => ?_) fun _ _ _ _ => ?_
      · exact evolves_markCompleted ((clear.since ahead).since onward) done
      · exact sound_onNodeCompleted
    · trivial

theorem sound_expandRuns {runIds : List String} :
    Sound cfg (NodePool.expandRuns cfg host fuel runIds) db := by
  induction runIds generalizing db with
  | nil => trivial
  | cons runId rest ih =>
    have turn : Sound cfg (NodePool.expandRun cfg host fuel (runId :: rest) runId) db := by
      refine sound_startRun.bind fun inserted found moved _ => ?_
      split
      · exact sound_commit fun _ _ _ _ done => evolves_updateRun (by simp) done
      · trivial
    exact Safe.bind (Safe.handle turn fun _ _ _ => trivial) fun _ _ _ _ => ih

theorem sound_callback {event : DispatchEvent} :
    Sound cfg (NodePool.callback cfg host fuel event) db := by
  unfold NodePool.callback
  split
  · exact sound_onNodeCompleted.bind fun _ _ _ _ => trivial
  · exact sound_onNodeFailed
  · exact sound_onNodeAwaitingInput

theorem sound_lockRun {handled : NodePool.Handled} : Sound cfg (NodePool.lockRun handled) db := by
  cases handled with
  | succeeded event => trivial
  | raised event error =>
    dsimp only [NodePool.lockRun]
    split
    · refine sound_commit fun found _ _ after done => ?_
      cases done
      exact .refl cfg found
    · trivial

theorem sound_handleEvents {batch : List DispatchEvent} {locked : List String} :
    Sound cfg (NodePool.handleEvents cfg host fuel locked batch) db := by
  induction batch generalizing db locked with
  | nil => trivial
  | cons event rest ih =>
    have handled : Sound cfg (NodePool.handleEvent cfg host fuel event) db :=
      Safe.handle (sound_callback.bind fun _ _ _ _ => trivial) fun _ _ _ => trivial
    refine (handled.awaiting _).bind fun _ _ _ _ => sound_lockRun.bind fun _ _ _ _ => ?_
    exact Safe.bind ih fun _ _ _ _ => trivial

/-- A run as the drain's bookkeeping leaves it: untouched, or failed by the poison path. -/
def Poisoned (old run : RunRow) : Prop :=
  run = old ∨ SameRun old run ∧ old.status.terminal = false ∧ run.status = .failed

theorem Poisoned.same {old run : RunRow} (poisoned : Poisoned old run) : SameRun old run := by
  rcases poisoned with rfl | ⟨same, -, -⟩
  · exact .refl run
  · exact same

/-- What the drain's bookkeeping can do. -/
structure Bookkept (before after : Db) : Prop where
  jobs : after.jobs = before.jobs
  next : after.nextJob = before.nextJob
  submissions : after.submissions = before.submissions
  runs : ∀ run ∈ after.runs.rows, ∃ old ∈ before.runs.rows, Poisoned old run
  present : ∀ old ∈ before.runs.rows, ∃ run ∈ after.runs.rows, Poisoned old run

theorem Bookkept.refl (db : Db) : Bookkept db db :=
  ⟨rfl, rfl, rfl, fun run member => ⟨run, member, .inl rfl⟩, fun run member => ⟨run, member, .inl rfl⟩⟩

theorem Bookkept.settleEvent {before : Db} (kept : Bookkept before db)
    (handled : NodePool.Handled) : Bookkept before (NodePool.settleEvent db handled) := by
  cases handled with
  | succeeded event => exact ⟨kept.jobs, kept.next, kept.submissions, kept.runs, kept.present⟩
  | raised event error =>
    simp only [NodePool.settleEvent]
    split
    · have fails : ∀ old run : RunRow, Poisoned old run → Poisoned old
          (if run.id == event.runId && !run.status.terminal then { run with
            status := .failed, finishedAt := some db.clock
            error := some (NodePool.poisonError event error) } else run) := by
        intro old run poisoned
        split
        · rename_i live
          simp only [Bool.and_eq_true, Bool.not_eq_true'] at live
          rcases poisoned with rfl | ⟨same, unfinished, -⟩
          · exact .inr ⟨⟨rfl, rfl, rfl, rfl, rfl⟩, live.2, rfl⟩
          · exact .inr ⟨same.trans ⟨rfl, rfl, rfl, rfl, rfl⟩, unfinished, rfl⟩
        · exact poisoned
      refine ⟨kept.jobs, kept.next, kept.submissions, fun run member => ?_, fun old member => ?_⟩
      · obtain ⟨mid, inside, rfl⟩ := List.mem_map.mp member
        obtain ⟨old, first, poisoned⟩ := kept.runs mid inside
        exact ⟨old, first, fails old mid poisoned⟩
      · obtain ⟨mid, inside, poisoned⟩ := kept.present old member
        exact ⟨_, List.mem_map_of_mem inside, fails old mid poisoned⟩
    · exact ⟨kept.jobs, kept.next, kept.submissions, kept.runs, kept.present⟩

theorem bookkept_foldl {before : Db} (kept : Bookkept before db)
    (handled : List NodePool.Handled) : Bookkept before (handled.foldl NodePool.settleEvent db) := by
  induction handled generalizing db with
  | nil => exact kept
  | cons first rest ih => exact ih (kept.settleEvent first)

theorem Bookkept.evolves {before : Db} (kept : Bookkept before db) : Evolves cfg before db := by
  refine ⟨kept.next.ge, fun job member => .inl ⟨job, kept.jobs ▸ member, .refl job⟩,
    fun job member _ => ⟨job, kept.jobs.symm ▸ member, .refl job⟩, fun run member => .inl ?_,
    fun old member => ?_⟩
  · obtain ⟨old, present, poisoned⟩ := kept.runs run member
    refine ⟨old, present, poisoned.same, fun completed => .inl ?_⟩
    rcases poisoned with rfl | ⟨-, -, failed⟩
    · exact completed
    · simp [failed] at completed
  · obtain ⟨run, present, poisoned⟩ := kept.present old member
    exact ⟨run, present, poisoned.same⟩

theorem sound_drainDispatchEvents {batch : List DispatchEvent} :
    Sound cfg (NodePool.drainDispatchEvents cfg host fuel batch) db := by
  refine sound_handleEvents.bind fun handled _ _ _ => sound_commit fun found _ _ after done => ?_
  cases done
  exact (bookkept_foldl (.refl found) handled).evolves

theorem sound_sweepStuckRuns {runIds : List String} :
    Sound cfg (NodePool.sweepStuckRuns cfg host fuel runIds) db := by
  induction runIds generalizing db with
  | nil => trivial
  | cons runId rest ih =>
    have turn : Sound cfg (do let _ ← Dispatcher.reconcileRun cfg host runId fuel) db :=
      sound_reconcileRun.bind fun _ _ _ _ => trivial
    exact Safe.bind (Safe.handle turn fun _ _ _ => trivial) fun _ _ _ _ => ih

theorem sound_restartRun {runId : String} :
    Sound cfg (NodePool.restartRun cfg host fuel runId) db := by
  refine Safe.bind (sound_commit fun _ _ _ _ done => Evolves.of_deleteNonTerminal done)
    fun _ _ _ _ => ?_
  exact sound_startRun.bind fun _ _ _ _ => trivial

theorem sound_processRow {row : InputSubmission} (bounded : Bounded db) :
    Sound cfg (InputListener.processRow cfg host fuel row) db := by
  have resumed : Sound cfg (InputListener.resumeRow cfg host fuel row) db := by
    refine Safe.handle (Safe.bind (sound_resumeAfterInput bounded) fun _ _ _ _ => trivial)
      fun _ _ _ => trivial
  refine resumed.bind fun failure found moved _ => ?_
  split
  all_goals
    refine sound_commit fun _ _ _ _ done => ?_
    cases done
    exact Evolves.of_same_tables rfl rfl rfl

theorem sound_processRows {rows : List InputSubmission} (bounded : Bounded db) :
    Sound cfg (InputListener.processRows cfg host fuel rows) db := by
  induction rows generalizing db with
  | nil => trivial
  | cons row rest ih =>
    exact (sound_processRow bounded).bind fun _ _ moved _ => ih (bounded.since moved)

end Loops

/-! ### The whole system -/

section System

variable {cfg : Config}

theorem Statement.evolves {before after : Db} (statement : Statement cfg before after) :
    Evolves cfg before after := by
  cases statement with
  | insertRun run done =>
    simp only [QueueWorkflows.insertRun] at done
    split at done
    · rename_i runs inserted
      cases done
      have rows := Relational.Table.rows_insert? inserted
      refine ⟨le_rfl, fun job member => .inl ⟨job, member, .refl job⟩,
        fun job member _ => ⟨job, member, .refl job⟩, fun other member => ?_, fun old member => ?_⟩
      · dsimp only at member
        rw [rows] at member
        rcases List.mem_append.mp member with old | last
        · exact .inl ⟨other, old, .refl other, .inl⟩
        · rw [List.mem_singleton.mp last]
          exact .inr ⟨Db.run?_eq_none (Relational.Table.apart_of_insert? inserted), rfl⟩
      · dsimp only
        rw [rows]
        exact ⟨old, List.mem_append_left _ member, .refl old⟩
    · cases done
  | cancelRun runId done =>
    cases done
    exact Evolves.of_updateRuns (fun run => ⟨rfl, rfl, rfl, rfl, rfl⟩) (by simp)
  | cancelQueued runId done => exact evolves_cancelQueuedJobsForRun done
  | enqueuePatch new outside id done =>
    refine evolves_enqueueNodeJob ?_ done
    unfold NodeQueue.enqueueNodeJob at done
    split at done
    · cases done
    · obtain ⟨⟨run, member, owner⟩, -⟩ := insertJob_cases done
      refine ⟨run, member, owner, fun nodes expands listed => ?_⟩
      obtain ⟨node, inside, named⟩ := listed
      have found : before.run? new.runId = some run := by
        have read := Db.run?_of_mem member
        rw [owner] at read
        exact read
      simp only [outsideDag, found, Option.all_some, expands, Bool.not_eq_true',
        List.any_eq_false, beq_iff_eq] at outside
      exact absurd named (outside node inside)
  | prioritize jobId row done =>
    cases done
    exact Evolves.of_updateJobs fun job _ _ => .of_same_status rfl rfl rfl ⟨rfl, rfl, rfl⟩
  | submit runId nodeId value done =>
    cases done
    exact Evolves.of_same_tables rfl rfl rfl
  | clock now later done =>
    cases done
    exact Evolves.of_same_tables rfl rfl rfl
  | heartbeat row done =>
    cases done
    exact Evolves.of_same_tables rfl rfl rfl
  | claimPending done =>
    cases done
    exact Evolves.of_same_tables rfl rfl rfl
  | reclaimExpired rows done => exact evolves_reclaimExpiredLeases done
  | reclaimAllRunning rows done =>
    cases done
    refine Evolves.of_updateJobs fun job _ selected => moved_released ?_
    simp only [Bool.and_eq_true, beq_iff_eq] at selected
    exact selected.1.1
  | reenqueueRuns rows done =>
    cases done
    exact Evolves.of_updateRuns (fun run => ⟨rfl, rfl, rfl, rfl, rfl⟩) (by simp)
  | cancelOrphaned done =>
    cases done
    refine Evolves.of_updateJobs fun job _ selected => ?_
    simp only [Bool.and_eq_true, beq_iff_eq] at selected
    exact .of_open rfl rfl (by simp [selected.1.1, JobStatus.final, JobStatus.closed]) (by simp)
  | renew jobId claimedBy leaseS renewed done =>
    cases done
    exact Evolves.of_updateJobs fun job _ _ => .of_same_status rfl rfl rfl ⟨rfl, rfl, rfl⟩
  | requeueForWorker hostLabel queue rows done =>
    cases done
    refine Evolves.of_updateJobs fun job _ selected => moved_released ?_
    simp only [Bool.and_eq_true, beq_iff_eq] at selected
    exact selected.1.1.1

theorem Claims.evolves {before after : Db} {job : NodeJob} (claims : Claims before after job) :
    Evolves cfg before after := by
  obtain ⟨claim, queue, capability, rank, done⟩ := claims
  exact evolves_claimNext done

/-- What every path in flight keeps to. A worker's row keeps its cell and is never
a skip marker. -/
def Healthy (cfg : Config) (path : Path) (db : Db) : Prop :=
  Sound cfg path.prog db ∧ ∀ job, path.role = .execution job ∨ path.role = .trip job →
    NotSkipped job.id db ∧ Agrees job db

theorem healthy_rule : Pool.Rule (ReflTransGen (Evolves cfg)) (Healthy cfg) where
  stable healthy moved :=
    ⟨Safe.stable (fun _ _ _ _ _ => trivial) healthy.1 moved,
      fun job role => ⟨(healthy.2 job role).1.since moved, (healthy.2 job role).2.since moved⟩⟩
  step healthy stepped := by
    obtain ⟨moved, rest⟩ := healthy.1.step stepped
    exact ⟨moved, rest,
      fun job role => ⟨(healthy.2 job role).1.since moved, (healthy.2 job role).2.since moved⟩⟩
  blip healthy failed := ⟨healthy.1.blip failed, healthy.2⟩

/-- A row just claimed is in the table as it was handed out. -/
theorem Claims.cases {before after : Db} {job : NodeJob} (claims : Claims before after job) :
    job ∈ after.jobs.rows ∧ job.status = .running ∧ job.claimedBy ≠ none ∧
      ∀ row ∈ after.jobs.rows, row.id ≠ job.id → row ∈ before.jobs.rows := by
  obtain ⟨claim, queue, capability, rank, done⟩ := claims
  obtain ⟨chosen, present, -, rfl, rfl⟩ := NodeQueue.claimNext_cases done
  refine ⟨List.mem_map.mpr ⟨chosen, present, by simp⟩, rfl, by simp [NodeQueue.taken], ?_⟩
  intro row member other
  obtain ⟨old, inside, rfl⟩ := List.mem_map.mp member
  by_cases same : old.id = chosen.id
  · simp [same, NodeQueue.taken] at other
  · simpa [same] using inside

theorem claimed_healthy {before db : Db} {job : NodeJob} {host : Host} {hasCache : Bool}
    (bounded : Bounded db) (claims : Claims before db job) :
    Healthy cfg ⟨.execution job, ClaimWorker.runNode cfg host hasCache job⟩ db := by
  obtain ⟨member, running, -, -⟩ := claims.cases
  have clear := bounded.notSkipped member (by simp [running])
  refine ⟨sound_runNode clear, fun other role => ?_⟩
  rcases role with role | role <;> cases role
  refine ⟨clear, clear.1, fun row inside same => ?_⟩
  rw [Db.eq_of_id inside member same]

theorem starts_healthy {sys : Sys} {label : Label} {db : Db} {role : Role} {prog : Program Unit}
    (bounded : Bounded db) (starts : Starts cfg sys label db role prog)
    (all : sys.All (Healthy cfg)) : Healthy cfg ⟨role, prog⟩ db := by
  cases starts with
  | restart runId host fuel => exact ⟨sound_restartRun, by simp⟩
  | expand host fuel => exact ⟨sound_expandRuns, by simp⟩
  | drain host fuel => exact ⟨sound_drainDispatchEvents, by simp⟩
  | sweep host fuel => exact ⟨sound_sweepStuckRuns, by simp⟩
  | poll host fuel => exact ⟨sound_processRows bounded, by simp⟩
  | claimCpu claim host hasCache job db claimed =>
    exact claimed_healthy bounded ⟨claim, _, _, _, claimed⟩
  | claimGpu claim gpu host hasCache job db claimed =>
    exact claimed_healthy bounded ⟨claim, _, _, _, claimed⟩
  | redeliver index actor job host hasCache present role =>
    have claimed := (all actor (List.mem_of_getElem? present)).2 job (.inl role)
    refine ⟨sound_runNode claimed.1, fun other again => ?_⟩
    rcases again with again | again <;> cases again
    exact claimed
  | trip index actor job error present role =>
    have claimed := (all actor (List.mem_of_getElem? present)).2 job (.inl role)
    refine ⟨sound_watchdogTrip claimed.1, fun other again => ?_⟩
    rcases again with again | again <;> cases again
    exact claimed

/-- The invariant of the store: every row has its cause, every completed run is finished. -/
structure Coherent (cfg : Config) (db : Db) : Prop where
  bounded : Bounded db
  caused : ∀ job ∈ db.jobs.rows, Caused cfg db job
  finished : ∀ run ∈ db.runs.rows, run.status = .completed → Finished cfg db run

theorem Coherent.later {before after : Db} (evolves : Evolves cfg before after)
    (now : Coherent cfg before) : Coherent cfg after where
  bounded := now.bounded.later evolves
  caused job member := by
    rcases evolves.rows job member with ⟨old, present, moved⟩ | ⟨-, -, cause⟩
    · exact evolves.caused ((now.caused old present).of_moved moved)
    · exact evolves.caused cause
  finished run member completed := by
    rcases evolves.runs run member with ⟨old, present, same, finishes⟩ | ⟨-, queued⟩
    · have done : Finished cfg before old := by
        rcases finishes completed with already | checked
        · exact now.finished old present already
        · exact checked
      exact (evolves.finished done).of_same same
    · simp [queued] at completed

/-- The invariant of the system. -/
structure Wellformed (cfg : Config) (sys : Sys) : Prop where
  coherent : Coherent cfg sys.store
  healthy : sys.All (Healthy cfg)

theorem wellformed_empty : Wellformed cfg Sys.empty :=
  ⟨⟨by simp [Bounded, Sys.empty, Db.empty], by simp [Sys.empty, Db.empty],
    by simp [Sys.empty, Db.empty]⟩, by simp [Sys.empty, Pool.All]⟩

/-- One step of the system keeps the invariant and evolves the store. -/
theorem step_wellformed {sys after : Sys} {label : Label} (wellformed : Wellformed cfg sys)
    (stepped : step cfg sys label = some after) :
    ReflTransGen (Evolves cfg) sys.store after.store ∧ Wellformed cfg after := by
  have begins : ∀ role prog, Starts cfg sys label after.store role prog → sys.All (Healthy cfg) →
      Healthy cfg ⟨role, prog⟩ after.store := by
    intro role prog starts all
    refine starts_healthy ?_ starts all
    rcases starts.store with same | statement | ⟨job, claims⟩
    · exact same ▸ wellformed.coherent.bounded
    · exact wellformed.coherent.bounded.later statement.evolves
    · exact wellformed.coherent.bounded.later (claims.evolves : Evolves cfg _ _)
  obtain ⟨moved, healthy⟩ := step_all healthy_rule (fun _ => .refl)
    (fun statement => .single statement.evolves) (fun _ claims => .single claims.evolves)
    begins wellformed.healthy stepped
  exact ⟨moved, stays (Coherent cfg) (fun _ _ => Coherent.later) moved wellformed.coherent, healthy⟩

/-- Along any run of the system the store evolves and the invariant holds. -/
theorem reach_wellformed {ok : Sys → Label → Bool} {first sys : Sys}
    (wellformed : Wellformed cfg first) (reached : Reach (step cfg) ok first sys) :
    ReflTransGen (Evolves cfg) first.store sys.store ∧ Wellformed cfg sys := by
  induction reached with
  | start => exact ⟨.refl, wellformed⟩
  | next label _ _ stepped ih =>
    obtain ⟨moved, now⟩ := step_wellformed ih.2 stepped
    exact ⟨ih.1.trans moved, now⟩

/-- Causal closure. In every reachable state, a row that stands for a DAG node of
its run has a completed or skipped row for each dependency of that node. -/
theorem rows_causally_closed {sys : Sys} (reached : Reach (step cfg) anyStep Sys.empty sys) :
    ∀ job ∈ sys.store.jobs.rows, ∃ run ∈ sys.store.runs.rows, run.id = job.runId ∧
      ∀ nodes, dagOf cfg run = .ok nodes →
        ((∃ node ∈ nodes, node.id = job.nodeId) →
          ∃ node ∈ nodes, node.id = job.nodeId ∧
            ∀ dep ∈ node.dependsOn, Satisfied sys.store job.runId dep) ∧
        ((nodes.map DagNode.id).Nodup → ∀ node ∈ nodes, node.id = job.nodeId →
          ∀ dep ∈ node.dependsOn, Satisfied sys.store job.runId dep) := by
  intro job member
  have coherent := (reach_wellformed wellformed_empty reached).2.coherent
  obtain ⟨run, present, owner, cause⟩ := coherent.caused job member
  refine ⟨run, present, owner, fun nodes expands => ⟨cause nodes expands, ?_⟩⟩
  intro distinct node inside named
  obtain ⟨other, among, same, met⟩ := cause nodes expands ⟨node, inside, named⟩
  have unique : other = node :=
    List.inj_on_of_nodup_map distinct among inside (same.trans named.symm)
  exact unique ▸ met

/-- After the answer, the row of `right/n` stands on the completed row of `ask`. -/
theorem right_caused_by_answer : ∃ job ∈ (Sample.after Sample.answered).store.jobs.rows,
    job.nodeId = "right/n" ∧ ∃ run ∈ (Sample.after Sample.answered).store.runs.rows,
      run.id = job.runId ∧ ∀ nodes, dagOf Sample.config run = .ok nodes →
        (∃ node ∈ nodes, node.id = job.nodeId) → ∃ node ∈ nodes, node.id = job.nodeId ∧
          ∀ dep ∈ node.dependsOn, Satisfied (Sample.after Sample.answered).store job.runId dep := by
  have reached := Sample.reach_after Sample.answered (by decide)
  have right : (Sample.after Sample.answered).store.jobs.rows.any
      (·.nodeId == "right/n") = true := by decide
  obtain ⟨job, member, named⟩ := List.any_eq_true.mp right
  obtain ⟨run, present, owner, cause⟩ := rows_causally_closed reached job member
  exact ⟨job, member, by simpa using named, run, present, owner,
    fun nodes expands => (cause nodes expands).1⟩

/-- Completion soundness. A run that is `completed` has a completed or skipped row
for every node of its DAG, then and in every later state. -/
theorem completed_run_finished {sys later : Sys}
    (reached : Reach (step cfg) anyStep Sys.empty sys)
    (onward : Reach (step cfg) anyStep sys later) :
    ∀ run ∈ sys.store.runs.rows, run.status = .completed →
      ∃ nodes, dagOf cfg run = .ok nodes ∧ nodes ≠ [] ∧
        ∀ node ∈ nodes, Satisfied sys.store run.id node.id ∧
          Satisfied later.store run.id node.id := by
  intro run member completed
  have wellformed := (reach_wellformed wellformed_empty reached).2
  have moved := (reach_wellformed wellformed onward).1
  have finished := wellformed.coherent.finished run member completed
  obtain ⟨nodes, expands, present, all⟩ := finished
  refine ⟨nodes, expands, present, fun node inside => ⟨all node inside, ?_⟩⟩
  exact stays (fun db => Satisfied db run.id node.id) (fun _ _ evolves => evolves.satisfied) moved
    (all node inside)

theorem sample_run_finished : ∃ run ∈ (Sample.after Sample.completed).store.runs.rows,
    run.status = .completed ∧ ∃ nodes, dagOf Sample.config run = .ok nodes ∧ nodes ≠ [] ∧
      ∀ node ∈ nodes, Satisfied (Sample.after Sample.completed).store run.id node.id := by
  have reached := Sample.reach_after Sample.completed (by decide)
  have completed : (Sample.after Sample.completed).store.runs.rows.any
      (·.status == .completed) = true := by decide
  obtain ⟨run, member, status⟩ := List.any_eq_true.mp completed
  obtain ⟨nodes, expands, present, all⟩ :=
    completed_run_finished reached .start run member (by simpa using status)
  exact ⟨run, member, by simpa using status, nodes, expands, present,
    fun node inside => (all node inside).1⟩

end System

end QueueWorkflows
