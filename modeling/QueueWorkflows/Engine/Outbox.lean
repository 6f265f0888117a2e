import QueueWorkflows.Engine.Invariants
import QueueWorkflows.Engine.Frames

/-! What the workers' paths (executions and watchdog trips) write: which rows they
move, and the dispatch events they commit with it. -/

namespace QueueWorkflows

open Relation (ReflTransGen)
open Transaction (Prog Pool Reach follow)
open Transaction.Prog (Always Sited commit ofExcept)

/-- How a worker may move the row it was given. -/
inductive WorkerMove (old new : NodeJob) : Prop
  | bookkeeping (resolved : Option Dict) (same : new = { old with resolvedInputs := resolved })
  | finishes (unsettled : old.status.closed = false)
      (status : new.status = .completed ∨ new.status = .failed ∨ new.status = .awaitingInput)
  | requeues (running : old.status = .running) (status : new.status = .queued)

theorem WorkerMove.refl (job : NodeJob) : WorkerMove job job := .bookkeeping job.resolvedInputs rfl

/-- The event kind that announces a terminal status. -/
def JobStatus.announced : JobStatus → Option EventKind
  | .completed => some .completed
  | .failed => some .failed
  | _ => none

/-- What one transaction appends to the outbox while it changes row `jobId` by `change`. -/
inductive Emits (jobId : Nat) (change : NodeJob → NodeJob) (db after : Db) : Prop
  | nothing (same : after.events = db.events)
      (unsettled : ∀ row ∈ db.jobs.rows, row.id = jobId → (change row).status.closed = true →
        row.status.closed = true)
  | parked (event : DispatchEvent) (appended : after.events = db.events ++ [event])
      (kind : event.kind = .awaitingInput)
      (unsettled : ∀ row ∈ db.jobs.rows, row.id = jobId → (change row).status.closed = true →
        row.status.closed = true)
  | settled (event : DispatchEvent) (appended : after.events = db.events ++ [event])
      (row : NodeJob) (present : row ∈ db.jobs.rows) (mine : row.id = jobId)
      (unsettled : row.status.closed = false)
      (cell : event.runId = row.runId ∧ event.nodeId = row.nodeId)
      (kind : (change row).status.announced = some event.kind)

/-- Everything one transaction of a worker's path on `job` does. -/
structure WorkerWrite (job : NodeJob) (change : NodeJob → NodeJob) (db after : Db) : Prop where
  rows : after.jobs.rows = db.jobs.rows.map fun row =>
    if row.id == job.id then change row else row
  moves : ∀ row ∈ db.jobs.rows, row.id = job.id → WorkerMove row (change row)
  keys : ∀ row, (change row).key = row.key
  owners : ∀ row, KeepsOwner row (change row)
  emits : Emits job.id change db after

/-- The runs stay as they are; the rest needs that the path was given its row. -/
def WorkerStep (job : NodeJob) (db after : Db) : Prop :=
  after.runs = db.runs ∧ (Agrees job db → ∃ change, WorkerWrite job change db after)

section Statements

variable {job : NodeJob} {db after : Db}

theorem workerStep_refl : WorkerStep job db db :=
  ⟨rfl, fun _ => ⟨id, by simp, fun row _ _ => .refl row, fun _ => rfl, fun _ => .inr rfl,
    .nothing rfl fun _ _ _ closed => closed⟩⟩

/-- An `UPDATE … WHERE id = …` by the worker, with what it appends to the outbox. -/
theorem worker_update {holds : NodeJob → Bool} {change : NodeJob → NodeJob}
    (rows : after.jobs.rows = db.jobs.rows.map fun row =>
      if row.id == job.id && holds row then change row else row)
    (keys : ∀ row, (change row).key = row.key) (owners : ∀ row, KeepsOwner row (change row))
    (moves : ∀ row ∈ db.jobs.rows, row.id = job.id → holds row = true →
      WorkerMove row (change row))
    (emits : Emits job.id (fun row => if holds row then change row else row) db after) :
    ∃ change, WorkerWrite job change db after := by
  refine ⟨_, ?_, fun row member mine => ?_, fun row => ?_, fun row => ?_, emits⟩
  · rw [rows]
    apply List.map_congr_left
    intro row _
    by_cases mine : (row.id == job.id) = true <;> simp [mine]
  · by_cases selected : holds row = true
    · rw [if_pos selected]
      exact moves row member mine selected
    · rw [if_neg selected]
      exact .refl row
  · split
    · exact keys row
    · rfl
  · split
    · exact owners row
    · exact .inr rfl

theorem workerStep_setResolvedInputs {inputs : Dict}
    (done : NodeQueue.setResolvedInputs job.id inputs db = .ok ((), after)) :
    WorkerStep job db after := by
  cases done
  refine ⟨rfl, fun _ => ⟨fun row => { row with resolvedInputs := some inputs }, rfl,
    fun row _ _ => .bookkeeping _ rfl, fun _ => rfl, fun _ => .inr rfl,
    .nothing rfl fun _ _ _ closed => closed⟩⟩

theorem workerStep_requeue {row : Option NodeJob}
    (done : NodeQueue.requeueJobForRetry job.id db = .ok (row, after)) :
    WorkerStep job db after := by
  cases done
  refine ⟨rfl, fun _ => worker_update rfl (fun _ => rfl) (fun _ => .inl rfl)
    (fun row _ _ running => ?_) (.nothing rfl fun row _ _ closed => ?_)⟩
  · exact .requeues (by simpa using running) rfl
  · split at closed
    · cases closed
    · exact closed

/-- The `mark_*` statements of a terminal status. -/
theorem finishes_of_announced {row new : NodeJob} {kind : EventKind}
    (unsettled : (!row.status.closed) = true) (announced : new.status.announced = some kind) :
    WorkerMove row new := by
  refine .finishes (by simpa using unsettled) ?_
  cases status : new.status <;> simp [status, JobStatus.announced] at announced ⊢

/-- A mark that took, with its event. -/
theorem worker_settles {change : NodeJob → NodeJob} {event : DispatchEvent}
    (kind : ∀ row, (change row).status.announced = some event.kind)
    (taken : ∃ row ∈ db.jobs.rows, row.id = job.id ∧ row.status.closed = false ∧
      event.runId = row.runId ∧ event.nodeId = row.nodeId)
    (rows : after.jobs.rows = db.jobs.rows.map fun row =>
      if row.id == job.id && !row.status.closed then change row else row)
    (keys : ∀ row, (change row).key = row.key) (owners : ∀ row, KeepsOwner row (change row))
    (events : after.events = db.events ++ [event]) :
    ∃ change, WorkerWrite job change db after := by
  obtain ⟨row, present, mine, unsettled, cell⟩ := taken
  refine worker_update rows keys owners
    (fun other _ _ unsettled => finishes_of_announced unsettled (kind other))
    (.settled event events row present mine unsettled cell ?_)
  simp only [unsettled, Bool.not_false, if_true]
  exact kind row

/-- A mark that found the row closed, or gone. -/
theorem worker_unmarked {change : NodeJob → NodeJob}
    (none : ∀ row ∈ db.jobs.rows, row.id = job.id → row.status.closed = true)
    (rows : after.jobs.rows = db.jobs.rows.map fun row =>
      if row.id == job.id && !row.status.closed then change row else row)
    (keys : ∀ row, (change row).key = row.key) (owners : ∀ row, KeepsOwner row (change row))
    (events : after.events = db.events) :
    ∃ change, WorkerWrite job change db after := by
  refine worker_update rows keys owners (fun row member mine unsettled => ?_)
    (.nothing events fun row member mine _ => none row member mine)
  simp [none row member mine] at unsettled

/-- What a `mark_*` statement returns says whether there was a row to move. -/
theorem mark_cases {jobId : Nat} {change : NodeJob → NodeJob}
    {keeps : ∀ row, (change row).key = row.key} {result : Option NodeJob}
    (done : NodeQueue.mark jobId change keeps db = .ok (result, after)) :
    after = { db with
      jobs := db.jobs.update (fun row => row.id == jobId && !row.status.closed) change keeps } ∧
    ((result = none ∧ ∀ row ∈ db.jobs.rows, row.id = jobId → row.status.closed = true) ∨
      ∃ row ∈ db.jobs.rows, row.id = jobId ∧ row.status.closed = false ∧
        result = some (change row)) := by
  obtain ⟨head, store⟩ := Prod.mk.inj (Except.ok.inj done)
  refine ⟨store.symm, ?_⟩
  cases result with
  | none =>
    left
    refine ⟨rfl, fun row member mine => ?_⟩
    simp only [List.head?_eq_none_iff, List.map_eq_nil_iff, List.filter_eq_nil_iff, Bool.and_eq_true,
      beq_iff_eq, Bool.not_eq_true', not_and, Bool.not_eq_false] at head
    exact head row member mine
  | some new =>
    right
    obtain ⟨row, present, rfl⟩ := List.mem_map.mp (List.mem_of_mem_head? head)
    simp only [List.mem_filter, Bool.and_eq_true, beq_iff_eq, Bool.not_eq_true'] at present
    exact ⟨row, present.1, present.2.1, present.2.2, rfl⟩

theorem workerStep_markWithEvent {marking : Txn (Option NodeJob)} {change : NodeJob → NodeJob}
    {keeps : ∀ row, (change row).key = row.key} {kind : EventKind}
    {outcome result : Executor.Outcome}
    (done : Executor.markWithEvent marking job.runId job.nodeId kind outcome db =
      .ok (result, after))
    (marks : marking db = NodeQueue.mark job.id change keeps db)
    (owners : ∀ row, KeepsOwner row (change row))
    (announced : ∀ row, (change row).status.announced = some kind) : WorkerStep job db after := by
  rcases markWithEvent_cases done with ⟨-, unmarked⟩ | ⟨new, mid, marked, -, written⟩
  · obtain ⟨rfl, ⟨-, none⟩ | ⟨row, -, -, -, taken⟩⟩ := mark_cases (marks.symm.trans unmarked)
    · exact ⟨rfl, fun _ => worker_unmarked none rfl keeps owners rfl⟩
    · cases taken
  · obtain ⟨rfl, ⟨missing, -⟩ | ⟨row, present, mine, unsettled, -⟩⟩ :=
      mark_cases (marks.symm.trans marked)
    · cases missing
    · cases written
      refine ⟨rfl, fun agrees => ?_⟩
      have key := agrees.2 row present mine
      refine worker_settles announced ⟨row, present, mine, unsettled, ?_, ?_⟩ rfl keeps owners rfl
      · exact congrArg (·.2.1) key.symm
      · exact congrArg (·.2.2) key.symm

theorem workerStep_failJobInTxn {error : String}
    (done : ClaimWorker.failJobInTxn job.id error db = .ok ((), after)) :
    WorkerStep job db after := by
  rcases failJobInTxn_cases done with unmarked | ⟨new, mid, marked, written⟩
  · obtain ⟨rfl, ⟨-, none⟩ | ⟨_, _, _, _, some⟩⟩ := mark_cases unmarked
    · exact ⟨rfl, fun _ => worker_unmarked none rfl (fun _ => rfl) (fun _ => .inr rfl) rfl⟩
    · cases some
  · obtain ⟨rfl, ⟨none, -⟩ | ⟨row, present, mine, unsettled, some⟩⟩ := mark_cases marked
    · cases none
    · cases some
      cases written
      exact ⟨rfl, fun _ => worker_settles (fun _ => rfl)
        ⟨row, present, mine, unsettled, rfl, rfl⟩ rfl (fun _ => rfl) (fun _ => .inr rfl) rfl⟩

theorem workerStep_parkInput (done : ClaimWorker.parkInput job db = .ok ((), after)) :
    WorkerStep job db after := by
  cases done
  refine ⟨rfl, fun _ => worker_update rfl (fun _ => rfl) (fun _ => .inr rfl)
    (fun row _ _ unsettled => ?_) (.parked _ rfl rfl fun row _ _ closed => ?_)⟩
  · exact .finishes (by simpa using unsettled) (.inr (.inr rfl))
  · split at closed
    · cases closed
    · exact closed

end Statements

/-! ### Paths -/

/-- `G` allows what the statements of a worker's path on `job` do, each at its site. -/
structure WorkerFrame (cfg : Config) (job : NodeJob) (G : Site → Db → Db → Prop) : Prop where
  reads : ∀ site db, (∀ tested, site.place ≠ .requeue tested) → G site db db
  resolves : ∀ inputs db after, NodeQueue.setResolvedInputs job.id inputs db = .ok ((), after) →
    G ⟨.setResolvedInputs, job.runId, []⟩ db after
  requeues : ∀ tested, tested < cfg.watchdogMaxRetries → ∀ db row after,
    NodeQueue.requeueJobForRetry job.id db = .ok (row, after) →
      G ⟨.requeue tested, job.runId, []⟩ db after
  completes : ∀ delta db outcome after,
    Executor.markWithEvent (NodeQueue.markCompletedInTxn job.id delta) job.runId job.nodeId
      .completed .completed db = .ok (outcome, after) → G ⟨.markTerminal, job.runId, []⟩ db after
  fails : ∀ error db outcome after,
    Executor.markWithEvent (NodeQueue.markFailedInTxn job.id error) job.runId job.nodeId
      .failed .failed db = .ok (outcome, after) → G ⟨.markTerminal, job.runId, []⟩ db after
  trips : ∀ error db after, ClaimWorker.failJobInTxn job.id error db = .ok ((), after) →
    G ⟨.markTerminal, job.runId, []⟩ db after
  parks : ∀ db after, ClaimWorker.parkInput job db = .ok ((), after) →
    G ⟨.parkInput, job.runId, []⟩ db after

namespace WorkerFrame

variable {cfg : Config} {host : Host} {job : NodeJob} {G : Site → Db → Db → Prop}
  (frame : WorkerFrame cfg job G)

include frame

theorem getRun {site : Site} {runId : String} (reads : ∀ tested, site.place ≠ .requeue tested) :
    (commit site (RunStore.getRun runId)).Sited G := by
  refine Sited.commit fun db row after done => ?_
  cases done
  exact frame.reads site db reads

theorem readSiblings {site : Site} {run : RunRow} (reads : ∀ tested, site.place ≠ .requeue tested) :
    (Dispatcher.readSiblings site run).Sited G := by
  refine Sited.handle (Sited.commit fun db rows after done => ?_) fun _ => trivial
  cases done
  exact frame.reads site db reads

theorem finaliseFailed {error : String} : (Executor.finaliseFailed job error).Sited G :=
  Sited.commit fun db outcome after done => frame.fails error db outcome after done

theorem settleError {short error : String} :
    (Executor.settleError cfg job short error).Sited G := by
  unfold Executor.settleError Executor.requeueForTransientGpu
  split
  · split
    · exact frame.finaliseFailed
    · rename_i under
      refine Sited.bind (Sited.commit fun db row after done => ?_) fun requeued => ?_
      · exact frame.requeues _ (not_le.mp under) db row after done
      · cases requeued with
        | none => exact frame.finaliseFailed
        | some row => trivial
  · exact frame.finaliseFailed

theorem resolveInputs : (Dispatcher.resolveInputsForJob cfg host job).Sited G := by
  unfold Dispatcher.resolveInputsForJob
  split
  · trivial
  · refine (frame.getRun (by nofun)).bind fun row => ?_
    cases row with
    | none => exact Sited.ofExcept _
    | some run =>
      refine (frame.readSiblings (by nofun)).bind fun siblings => ?_
      exact (Sited.ofExcept _).bind fun context => Sited.ofExcept _

theorem invokeNode : (Executor.invokeNode cfg host job).Sited G := by
  refine frame.resolveInputs.bind fun inputs => ?_
  refine Sited.bind (Sited.handle (Sited.commit fun db _ after done => ?_) fun _ => trivial)
    fun _ => (Sited.ofExcept _).bind fun _ => ?_
  · exact frame.resolves inputs db after done
  · split
    · exact frame.settleError
    · refine (Sited.ofExcept _).bind fun delta => Sited.commit fun db outcome after done => ?_
      exact frame.completes delta db outcome after done

theorem runNode {hasCache : Bool} : (ClaimWorker.runNode cfg host hasCache job).Sited G := by
  unfold ClaimWorker.runNode
  split
  · exact Sited.commit fun db _ after done => frame.parks db after done
  · refine Sited.bind ((frame.getRun (by nofun)).bind fun _ => ?_) fun _ => trivial
    split
    · exact frame.invokeNode
    · split
      · split
        · exact frame.invokeNode
        · exact frame.settleError
      · exact frame.finaliseFailed

theorem watchdogTrip {error : String} : (ClaimWorker.watchdogTrip cfg job error).Sited G := by
  refine Sited.bind (Sited.handle (Sited.commit fun db row after done => ?_) fun _ => trivial)
    fun row => ?_
  · cases done
    exact frame.reads _ db nofun
  · split
    · rename_i under
      refine Sited.handle (Sited.bind (Sited.commit fun db row after done => ?_)
        fun _ => trivial) fun _ => trivial
      exact frame.requeues _ under db row after done
    · refine Sited.handle (Sited.commit fun db _ after done => ?_) fun _ => trivial
      exact frame.trips error db after done

end WorkerFrame

theorem workerStep_frame {cfg : Config} (job : NodeJob) :
    WorkerFrame cfg job fun _ => WorkerStep job where
  reads _ _ _ := workerStep_refl
  resolves _ _ _ done := workerStep_setResolvedInputs done
  requeues _ _ _ _ _ done := workerStep_requeue done
  completes _ _ _ _ done := workerStep_markWithEvent done rfl (fun _ => .inr rfl) fun _ => rfl
  fails _ _ _ _ done := workerStep_markWithEvent done rfl (fun _ => .inr rfl) fun _ => rfl
  trips _ _ _ done := workerStep_failJobInTxn done
  parks _ _ done := workerStep_parkInput done

/-! ### The system -/

section System

variable {cfg : Config}

/-- The immutable columns of an event. -/
def DispatchEvent.ident (event : DispatchEvent) : Nat × String × String × EventKind :=
  (event.id, event.runId, event.nodeId, event.kind)

/-- The outbox neither grows nor loses an event. -/
def Silent (db after : Db) : Prop :=
  after.events.map DispatchEvent.ident = db.events.map DispatchEvent.ident

theorem silent_updateEvent {db : Db} {eventId : Nat} {change : DispatchEvent → DispatchEvent}
    (same : ∀ event, (change event).ident = event.ident) :
    Silent db (NodePool.updateEvent eventId change db) := by
  simp only [Silent, NodePool.updateEvent, List.map_map]
  apply List.map_congr_left
  intro event _
  simp only [Function.comp_apply]
  split
  · exact same event
  · rfl

theorem silent_markProcessed (db : Db) (eventId : Nat) :
    Silent db (NodePool.markProcessed eventId db) :=
  silent_updateEvent fun _ => rfl

theorem silent_settleEvent (db : Db) (handled : NodePool.Handled) :
    Silent db (NodePool.settleEvent db handled) := by
  cases handled with
  | succeeded event => exact silent_markProcessed db event.id
  | raised event error =>
    simp only [NodePool.settleEvent]
    split
    · refine (silent_markProcessed _ event.id).trans ?_
      exact silent_updateEvent fun _ => rfl
    · exact silent_updateEvent fun _ => rfl

theorem silent_foldl (db : Db) (handled : List NodePool.Handled) :
    Silent db (handled.foldl NodePool.settleEvent db) := by
  induction handled generalizing db with
  | nil => rfl
  | cons first rest ih => exact (ih _).trans (silent_settleEvent db first)

/-- A column of each row is at its start, or what it was in that row before. -/
def Inherits {β : Type} (column : NodeJob → β) (start : β) (db after : Db) : Prop :=
  ∀ row ∈ after.jobs.rows, column row = start ∨
    ∃ old ∈ db.jobs.rows, old.id = row.id ∧ column old = column row

section Inherits

variable {β : Type} {column : NodeJob → β} {start : β} {db after : Db}

theorem inherits_of_same (jobs : after.jobs = db.jobs) : Inherits column start db after :=
  fun row member => .inr ⟨row, jobs ▸ member, rfl, rfl⟩

theorem inherits_update {selects : NodeJob → Bool} {change : NodeJob → NodeJob}
    (keys : ∀ row, (change row).key = row.key)
    (rows : after.jobs.rows = db.jobs.rows.map fun row =>
      if selects row then change row else row)
    (kept : ∀ row ∈ db.jobs.rows, column (change row) = start ∨
      column (change row) = column row) : Inherits column start db after := by
  intro row member
  rw [rows] at member
  obtain ⟨old, present, rfl⟩ := List.mem_map.mp member
  split
  · rcases kept old present with reset | same
    · exact .inl reset
    · exact .inr ⟨old, present, (congrArg Prod.fst (keys old)).symm, same.symm⟩
  · exact .inr ⟨old, present, rfl, rfl⟩

theorem inherits_insert {job : NodeJob} (initial : column job = start)
    (inserted : db.jobs.insert? job = some after.jobs) : Inherits column start db after := by
  intro row member
  rw [Relational.Table.rows_insert? inserted] at member
  rcases List.mem_append.mp member with old | last
  · exact .inr ⟨row, old, rfl, rfl⟩
  · rw [List.mem_singleton.mp last]
    exact .inl initial

end Inherits

/-- No row changes hands: one that somebody holds was held by the same before. -/
abbrev Unclaims (db after : Db) : Prop := Inherits NodeJob.claimedBy none db after

/-- No row's count of retries goes up. -/
abbrev Unbumped (db after : Db) : Prop := Inherits NodeJob.watchdogRetries 0 db after

/-- The frame of every path that is no worker's: it adds no event, claims no row and counts
no retry. -/
structure Backstage (db after : Db) : Prop where
  silent : Silent db after
  unclaims : Unclaims db after
  unbumped : Unbumped db after

theorem backstage_of_same {db after : Db} (jobs : after.jobs = db.jobs)
    (events : Silent db after) : Backstage db after :=
  ⟨events, inherits_of_same jobs, inherits_of_same jobs⟩

theorem backstage_update {db : Db} {selects : NodeJob → Bool} {change : NodeJob → NodeJob}
    {keeps : ∀ job, (change job).key = job.key} (tends : ∀ row, Tends row (change row)) :
    Backstage db { db with jobs := db.jobs.update selects change keeps } :=
  ⟨rfl, inherits_update keeps rfl fun row _ => (tends row).owner,
    inherits_update keeps rfl fun row _ => .inr (tends row).retries⟩

theorem backstage_frame : Frame (fun _ => True) Backstage where
  refl _ := backstage_of_same rfl rfl
  update _ _ _ _ tends := backstage_update tends
  insert _ _ _ fresh inserted :=
    ⟨rfl, inherits_insert fresh.1 inserted, inherits_insert fresh.2 inserted⟩
  delete _ _ := ⟨rfl, fun row member => .inr ⟨row, List.mem_of_mem_filter member, rfl, rfl⟩,
    fun row member => .inr ⟨row, List.mem_of_mem_filter member, rfl, rfl⟩⟩
  submissions _ _ := backstage_of_same rfl rfl
  updateRun _ _ _ _ _ done := by
    cases done
    exact backstage_of_same rfl rfl

theorem backstage_foldl (db : Db) (handled : List NodePool.Handled) :
    Backstage db (handled.foldl NodePool.settleEvent db) :=
  backstage_of_same (bookkept_foldl (.refl db) handled).jobs (silent_foldl db handled)

theorem Statement.backstage {before after : Db} (statement : Statement cfg before after) :
    Backstage before after := by
  cases statement with
  | insertRun run done =>
    simp only [QueueWorkflows.insertRun] at done
    split at done <;> cases done
    exact backstage_of_same rfl rfl
  | enqueuePatch new outside id done => exact backstage_frame.enqueueNodeJob done
  | reclaimExpired rows done =>
    cases done
    refine backstage_update fun row => ?_
    unfold NodeQueue.reclaimed
    split <;> exact ⟨.inl rfl, rfl⟩
  | reclaimAllRunning | requeueForWorker =>
    rename_i done
    cases done
    exact backstage_update fun row => ⟨.inl rfl, rfl⟩
  | cancelQueued | prioritize | cancelOrphaned | renew =>
    rename_i done
    cases done
    exact backstage_update fun row => ⟨.inr rfl, rfl⟩
  | _ =>
    rename_i done
    cases done
    exact backstage_of_same rfl rfl

theorem Claims.silent {before after : Db} {job : NodeJob} (claims : Claims before after job) :
    Silent before after := by
  obtain ⟨claim, queue, capability, rank, done⟩ := claims
  obtain ⟨_, _, _, _, rfl⟩ := NodeQueue.claimNext_cases done
  rfl

/-- A worker's path writes its own row and the outbox; no other path adds an event. -/
def Disciplined (path : Path) (_ : Db) : Prop :=
  match path.role with
  | .execution job | .trip job => path.prog.Always (WorkerStep job)
  | _ => path.prog.Always Backstage

theorem disciplined_rule : Pool.Rule (fun _ _ => True) Disciplined where
  stable held _ := held
  step {role prog rest state after} held stepped := by
    refine ⟨trivial, ?_⟩
    cases role <;> exact (Always.step held stepped).2
  blip {role prog rest state error} held failed := by
    cases role <;> exact Always.blip held failed

theorem starts_disciplined {sys : Sys} {label : Label} {db : Db} {role : Role}
    {prog : Program Unit} (starts : Starts cfg sys label db role prog) :
    Disciplined ⟨role, prog⟩ db := by
  cases starts with
  | restart => exact backstage_frame.restartRun trivial
  | expand => exact backstage_frame.expandRuns fun _ _ => trivial
  | drain => exact backstage_frame.drainDispatchEvents (fun _ _ => trivial) backstage_foldl
  | sweep => exact backstage_frame.sweepStuckRuns fun _ _ => trivial
  | poll => exact backstage_frame.processRows fun _ _ => trivial
  | claimCpu => exact (workerStep_frame _).runNode
  | claimGpu => exact (workerStep_frame _).runNode
  | redeliver => exact (workerStep_frame _).runNode
  | trip => exact (workerStep_frame _).watchdogTrip

theorem reach_disciplined {ok : Sys → Label → Bool} {sys : Sys}
    (reached : Reach (step cfg) ok Sys.empty sys) : sys.All Disciplined := by
  refine reached.invariant (by simp [Sys.empty, Pool.All]) fun state label after all _ stepped => ?_
  exact (step_all disciplined_rule (fun _ => trivial) (fun _ => trivial) (fun _ _ => trivial)
    (fun _ _ starts _ => starts_disciplined starts) all stepped).2

/-- What a transaction of a worker's path in flight does to the store. -/
theorem worker_advance {ok : Sys → Label → Bool} {sys after : Sys} {index : Nat} {path : Path}
    {job : NodeJob} (reached : Reach (step cfg) ok Sys.empty sys)
    (acting : sys.actors[index]? = some path)
    (role : path.role = .execution job ∨ path.role = .trip job)
    (stepped : step cfg sys (.advance index) = some after) :
    (∃ change, WorkerWrite job change sys.store after.store) ∧ NotSkipped job.id sys.store ∧
      Agrees job sys.store := by
  have member := List.mem_of_getElem? acting
  have owned := ((reach_wellformed wellformed_empty reached).2.healthy path member).2 job role
  have always : path.prog.Always (WorkerStep job) := by
    have disciplined := reach_disciplined reached path member
    unfold Disciplined at disciplined
    rcases role with role | role <;> rw [role] at disciplined <;> exact disciplined
  obtain ⟨actor, rest, found, moved, -⟩ := Pool.advance_cases stepped
  cases acting.symm.trans found
  refine ⟨?_, owned⟩
  rcases (always.step moved).1 with same | wrote
  · rw [same]
    exact workerStep_refl.2 owned.2
  · exact wrote.2 owned.2

/-- A worker's transaction touches no row but the one it was given. That row it
moves to `completed`, `failed` or `awaiting_input` only while the row is live,
whoever holds it, and back to `queued` only while it is `running`; otherwise all
columns but `resolved_inputs` stay as they are. -/
theorem worker_moves_live_row {sys after : Sys} {index : Nat} {path : Path} {job : NodeJob}
    (reached : Reach (step cfg) anyStep Sys.empty sys) (acting : sys.actors[index]? = some path)
    (role : path.role = .execution job ∨ path.role = .trip job)
    (stepped : step cfg sys (.advance index) = some after) :
    (∀ row, row.id ≠ job.id → (row ∈ after.store.jobs.rows ↔ row ∈ sys.store.jobs.rows)) ∧
    ∀ old ∈ sys.store.jobs.rows, old.id = job.id →
      ∃ new ∈ after.store.jobs.rows, new.key = old.key ∧
        (new = { old with resolvedInputs := new.resolvedInputs } ∨
          old.status.live = true ∧
            (new.status = .completed ∨ new.status = .failed ∨ new.status = .awaitingInput) ∨
          old.status = .running ∧ new.status = .queued) := by
  obtain ⟨⟨change, write⟩, clear, -⟩ := worker_advance reached acting role stepped
  refine ⟨fun row other => ?_, fun old present mine => ?_⟩
  · rw [write.rows, List.mem_map]
    constructor
    · rintro ⟨old, present, rfl⟩
      by_cases mine : old.id = job.id
      · have moved : (change old).id = old.id := congrArg Prod.fst (write.keys old)
        simp [mine, moved] at other
      · simpa [mine] using present
    · intro present
      exact ⟨row, present, by simp [other]⟩
  · refine ⟨change old, ?_, write.keys old, ?_⟩
    · rw [write.rows]
      exact List.mem_map.mpr ⟨old, present, by simp [mine]⟩
    · rcases write.moves old present mine with ⟨resolved, same⟩ | ⟨unsettled, status⟩ |
        ⟨running, status⟩
      · left
        rw [same]
      · right; left
        have unskipped := clear.2 old present mine
        refine ⟨?_, status⟩
        cases current : old.status <;> simp_all [JobStatus.closed, JobStatus.live]
      · exact .inr (.inr ⟨running, status⟩)

/-- Worker `a` claims row 1 and stalls before its terminal write; its lease lapses,
the row is reclaimed and worker `b` claims it. -/
def Sample.displaced : List Label :=
  Sample.expanded ++ [.prioritize 1, .claimCpu { host := "a" } Sample.host false] ++
    List.replicate 4 (.advance 1) ++
    [.clock (seconds 601), .reclaimExpired, .claimCpu { host := "b" } Sample.host false]

theorem displaced_worker_moves : ∃ after : Sys,
    step Sample.config (Sample.after Sample.displaced) (.advance 1) = some after ∧
      ∀ old ∈ (Sample.after Sample.displaced).store.jobs.rows, old.id = 1 →
        ∃ new ∈ after.store.jobs.rows, new.key = old.key ∧
          (new = { old with resolvedInputs := new.resolvedInputs } ∨
            old.status.live = true ∧
              (new.status = .completed ∨ new.status = .failed ∨ new.status = .awaitingInput) ∨
            old.status = .running ∧ new.status = .queued) := by
  have reached := Sample.reach_after Sample.displaced (by decide)
  have able : (step Sample.config (Sample.after Sample.displaced) (.advance 1)).isSome = true := by
    decide
  obtain ⟨after, stepped⟩ := Option.isSome_iff_exists.mp able
  have claimed : ((Sample.after Sample.displaced).execution? 1).map NodeJob.id = some 1 := by decide
  obtain ⟨job, found, same⟩ := Option.map_eq_some_iff.mp claimed
  obtain ⟨path, acting, role, -⟩ := Sys.execution?_cases found
  have moves := (worker_moves_live_row reached acting (.inl role) stepped).2
  exact ⟨after, stepped, same ▸ moves⟩

/-- The stronger discipline under which a displaced worker could not write: a
worker moves its row only while it is `running` and claimed by that worker. -/
def FencedByOwner (cfg : Config) : Prop :=
  ∀ sys after : Sys, ∀ index : Nat, ∀ job : NodeJob, Reach (step cfg) anyStep Sys.empty sys →
    sys.execution? index = some job → step cfg sys (.advance index) = some after →
    ∀ old ∈ sys.store.jobs.rows, ∀ new ∈ after.store.jobs.rows, old.id = job.id →
      new.id = job.id → new.status ≠ old.status →
        old.status = .running ∧ old.claimedBy = job.claimedBy

/-- Worker `a` completes the row that worker `b` holds. -/
theorem not_fencedByOwner : ¬ FencedByOwner Sample.config := by
  intro fenced
  have reached := Sample.reach_after Sample.displaced (by decide)
  have claimed : ((Sample.after Sample.displaced).execution? 1).map
      (fun job => (job.id, job.claimedBy)) = some (1, some "a") := by decide
  have held : ((Sample.after Sample.displaced).store.job? 1).map
      (fun row => (row.status, row.claimedBy)) = some (.running, some "b") := by decide
  have wrote : ((step Sample.config (Sample.after Sample.displaced) (.advance 1)).bind
      fun after => after.store.job? 1).map NodeJob.status = some .completed := by decide
  obtain ⟨job, found, claim⟩ := Option.map_eq_some_iff.mp claimed
  obtain ⟨old, before, holder⟩ := Option.map_eq_some_iff.mp held
  obtain ⟨new, written, status⟩ := Option.map_eq_some_iff.mp wrote
  obtain ⟨after, stepped, later⟩ := Option.bind_eq_some_iff.mp written
  obtain ⟨present, named⟩ := Db.job?_mem before
  obtain ⟨member, same⟩ := Db.job?_mem later
  cases claim' : job.claimedBy with
  | none => simp [claim'] at claim
  | some owner =>
    have conclusion := fenced _ after 1 job reached found stepped old present new member
    simp_all

end System

end QueueWorkflows
