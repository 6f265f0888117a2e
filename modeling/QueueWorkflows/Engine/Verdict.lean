import QueueWorkflows.Engine.Ledger
import QueueWorkflows.Engine.ExactlyOnce
import QueueWorkflows.Engine.Reconciler

/-! Failure verdicts. `on_node_failed` acts on an event that names only a run and a
node; by the time the event is drained the row it tells of may have been deleted and
the node put back on the queue. -/

namespace QueueWorkflows

open Transaction (Prog Pool Reach Terms follow)
open Transaction.Prog (Always Marked Outline commit ofExcept stays)

/-- A failure of this cell that no drain has settled yet. -/
def PendingFailure (runId nodeId : String) (db : Db) : Prop :=
  ∃ event ∈ db.events, event.kind = .failed ∧ event.runId = runId ∧ event.nodeId = nodeId ∧
    event.processedAt = none

def pendingFailure (db : Db) (runId : String) : Bool :=
  db.events.any fun event =>
    event.kind == .failed && event.runId == runId && event.processedAt.isNone

def FailedRow (runId nodeId : String) (db : Db) : Prop :=
  ∃ row ∈ db.jobs.rows, row.runId = runId ∧ row.nodeId = nodeId ∧ row.status = .failed

theorem pendingFailure_iff {db : Db} {runId : String} :
    pendingFailure db runId = true ↔ ∃ nodeId, PendingFailure runId nodeId db := by
  simp only [pendingFailure, List.any_eq_true, Bool.and_eq_true, beq_iff_eq,
    Option.isNone_iff_eq_none, PendingFailure]
  constructor
  · rintro ⟨event, member, ⟨kind, run⟩, unprocessed⟩
    exact ⟨event.nodeId, event, member, kind, run, rfl, unprocessed⟩
  · rintro ⟨nodeId, event, member, kind, run, -, unprocessed⟩
    exact ⟨event, member, ⟨kind, run⟩, unprocessed⟩

/-! ### Where failures come from -/

section Origin

variable {cfg : Config} {ok : Sys → Label → Bool} {sys after : Sys} {label : Label}
  {runId nodeId : String}

theorem JobStatus.live_of_open {status : JobStatus} (unsettled : status.closed = false)
    (unskipped : status ≠ .skipped) : status.live = true := by
  cases status <;> first | rfl | exact absurd rfl unskipped | cases unsettled

theorem WorkerWrite.failed {job : NodeJob} {change : NodeJob → NodeJob} {db later : Db}
    {event : DispatchEvent} (write : WorkerWrite job change db later)
    (clear : NotSkipped job.id db) (appended : later.events = db.events ++ [event])
    (kind : event.kind = .failed) (run : event.runId = runId) (node : event.nodeId = nodeId) :
    Live runId db ∧ FailedRow runId nodeId later := by
  rcases write.emits with ⟨same, -⟩ | ⟨other, emitted, parked, -⟩ |
    ⟨other, emitted, row, present, mine, unsettled, cell, announced⟩
  · have lengths := congrArg List.length (same.symm.trans appended)
    simp at lengths
  · rw [appended] at emitted
    cases List.append_cancel_left emitted
    rw [kind] at parked
    cases parked
  · rw [appended] at emitted
    cases List.append_cancel_left emitted
    have key := write.keys row
    simp only [NodeJob.key, Prod.mk.injEq] at key
    constructor
    · exact ⟨row, present, cell.1.symm.trans run,
        JobStatus.live_of_open unsettled (clear.2 row present mine)⟩
    · refine ⟨change row, ?_, key.2.1.trans (cell.1.symm.trans run),
        key.2.2.trans (cell.2.symm.trans node), ?_⟩
      · rw [write.rows]
        exact List.mem_map.mpr ⟨row, present, by simp [mine]⟩
      · rw [kind] at announced
        cases status : (change row).status <;> simp [status, JobStatus.announced] at announced ⊢

/-- A new failure is that of a row that was live, and is failed with it. -/
theorem failure_origin (reached : Reach (step cfg) ok Sys.empty sys)
    (stepped : step cfg sys label = some after)
    (pending : PendingFailure runId nodeId after.store) :
    PendingFailure runId nodeId sys.store ∨
      Live runId sys.store ∧ FailedRow runId nodeId after.store := by
  obtain ⟨event, member, kind, run, node, unprocessed⟩ := pending
  rcases step_outbox reached stepped with (⟨same, -⟩ | ⟨new, appended, -, -, -⟩) |
    ⟨index, batch, -, settling⟩
  · exact .inl ⟨event, same ▸ member, kind, run, node, unprocessed⟩
  · rw [appended] at member
    rcases List.mem_append.mp member with old | last
    · exact .inl ⟨event, old, kind, run, node, unprocessed⟩
    · cases List.mem_singleton.mp last
      cases worker : workerStep sys label with
      | false =>
        have lengths := congrArg List.length (step_silent reached stepped worker)
        simp [appended] at lengths
      | true =>
        obtain ⟨index, path, job, rfl, acting, role⟩ := workerStep_cases worker
        obtain ⟨⟨change, write⟩, clear, -⟩ := worker_advance reached acting role stepped
        refine .inr (write.failed clear appended kind run node)
  · obtain ⟨-, change, events, kept⟩ := settling.settles
    rw [events] at member
    obtain ⟨old, present, rfl⟩ := List.mem_map.mp member
    obtain ⟨ident, opens, -⟩ := kept old
    simp only [DispatchEvent.ident, Prod.mk.injEq] at ident
    exact .inl ⟨old, present, ident.2.2.2.symm.trans kind, ident.2.1.symm.trans run,
      ident.2.2.1.symm.trans node, opens unprocessed⟩

end Origin

/-! ### Who may delete a row -/

section Rows

variable {cfg : Config} {ok : Sys → Label → Bool} {sys after : Sys} {label : Label}

/-- No row disappears. -/
def KeepsRows (db after : Db) : Prop :=
  ∀ row ∈ db.jobs.rows, ∃ new ∈ after.jobs.rows, new.key = row.key

theorem keepsRows_of_same {db after : Db} (jobs : after.jobs = db.jobs) : KeepsRows db after :=
  fun row member => ⟨row, jobs ▸ member, rfl⟩

theorem keepsRows_update {db : Db} {selects : NodeJob → Bool} {change : NodeJob → NodeJob}
    {keeps : ∀ job, (change job).key = job.key} :
    KeepsRows db { db with jobs := db.jobs.update selects change keeps } := by
  intro row member
  refine ⟨if selects row then change row else row, List.mem_map_of_mem member, ?_⟩
  · split
    · exact keeps row
    · rfl

theorem keepsRows_retains : Retains (fun _ => True) KeepsRows where
  refl _ := keepsRows_of_same rfl
  insert db job jobs _ inserted := by
    intro row member
    refine ⟨row, ?_, rfl⟩
    dsimp only
    rw [Relational.Table.rows_insert? inserted]
    exact List.mem_append_left _ member
  update _ _ _ _ _ := keepsRows_update
  submissions _ _ := keepsRows_of_same rfl
  updateRun _ _ _ _ _ done := by
    cases done
    exact keepsRows_of_same rfl

theorem Statement.keepsRows {before after : Db} (statement : Statement cfg before after) :
    KeepsRows before after := by
  cases statement with
  | insertRun run done =>
    simp only [QueueWorkflows.insertRun] at done
    split at done <;> cases done
    exact keepsRows_of_same rfl
  | enqueuePatch new outside id done => exact keepsRows_retains.enqueueNodeJob done
  | cancelQueued | prioritize | reclaimExpired | reclaimAllRunning | cancelOrphaned | renew |
    requeueForWorker =>
    rename_i done
    cases done
    exact keepsRows_update
  | _ =>
    rename_i done
    cases done
    exact keepsRows_of_same rfl

theorem Claims.keepsRows {before after : Db} {job : NodeJob} (claims : Claims before after job) :
    KeepsRows before after := by
  obtain ⟨claim, queue, capability, rank, done⟩ := claims
  obtain ⟨_, _, _, _, rfl⟩ := NodeQueue.claimNext_cases done
  exact keepsRows_update

/-- A path that deletes rows. -/
def Role.deletes : Role → Bool
  | .sweep _ | .restart _ => true
  | _ => false

/-- What a path may do to the rows, by its role. -/
def rowMoves (role : Role) (db after : Db) : Prop :=
  match role with
  | .sweep _ | .restart _ => True
  | .execution job | .trip job => WorkerStep job db after
  | _ => KeepsRows db after

theorem starts_rowMoves {db : Db} {role : Role} {prog : Program Unit}
    (starts : Starts cfg sys label db role prog) : prog.Always (rowMoves role) := by
  have frame := keepsRows_retains
  cases starts with
  | restart => exact Always.of_true _
  | expand => exact frame.expandRuns fun _ _ => trivial
  | drain =>
    refine frame.drainDispatchEvents (fun _ _ => trivial) fun db handled => ?_
    exact keepsRows_of_same (bookkept_foldl (.refl db) handled).jobs
  | sweep => exact Always.of_true _
  | poll => exact frame.processRows fun _ _ => trivial
  | claimCpu => exact (workerStep_frame _).runNode
  | claimGpu => exact (workerStep_frame _).runNode
  | redeliver => exact (workerStep_frame _).runNode
  | trip => exact (workerStep_frame _).watchdogTrip

/-- Only a sweep or a restart takes a row away. -/
theorem step_keeps_rows (reached : Reach (step cfg) ok Sys.empty sys)
    (stepped : step cfg sys label = some after)
    (idle : ∀ index path, label = .advance index → sys.actors[index]? = some path →
      path.role.deletes = false) : KeepsRows sys.store after.store := by
  rcases step_moves starts_rowMoves reached stepped with
    same | statement | ⟨job, claims⟩ | ⟨index, path, rfl, found, moved⟩
  · exact keepsRows_of_same (congrArg Db.jobs same)
  · exact statement.keepsRows
  · exact claims.keepsRows
  · have kind := idle index path rfl found
    cases role : path.role with
    | sweep | restart =>
      rw [role] at kind
      cases kind
    | execution job | trip job =>
      have works : path.role = .execution job ∨ path.role = .trip job := by simp [role]
      obtain ⟨⟨change, write⟩, -⟩ := worker_advance reached found works stepped
      intro row member
      refine ⟨if row.id == job.id then change row else row, ?_, ?_⟩
      · rw [write.rows]
        exact List.mem_map_of_mem member
      · split
        · exact write.keys row
        · rfl
    | _ =>
      rw [role] at moved
      exact moved

/-- A failed row that is still there is still failed. -/
theorem failed_row_stays {row new : NodeJob} (reached : Reach (step cfg) ok Sys.empty sys)
    (stepped : step cfg sys label = some after) (present : row ∈ sys.store.jobs.rows)
    (failed : row.status = .failed) (member : new ∈ after.store.jobs.rows)
    (key : new.key = row.key) : new.status = .failed := by
  have wellformed := (reach_wellformed wellformed_empty reached).2
  obtain ⟨moved, -⟩ := step_wellformed wellformed stepped
  have now : SettledAs (.of row .failed) sys.store := by
    refine ⟨wellformed.coherent.bounded row present, fun other inside same => ?_⟩
    rw [Db.eq_of_id inside present same, failed]
    exact ⟨rfl, rfl, rfl⟩
  have later := stays (SettledAs (.of row .failed)) (fun _ _ => SettledAs.later) moved now
  obtain ⟨announced, -, -⟩ := later.2 new member (congrArg Prod.fst key)
  cases status : new.status <;> rw [status] at announced <;> first | rfl | cases announced

/-! ### Deletions under pending failures -/

/-- A failed row whose failure is pending stays. -/
def KeepsFailures (before after : Db) : Prop :=
  ∀ row ∈ before.jobs.rows, row.status = .failed → PendingFailure row.runId row.nodeId before →
    row ∈ after.jobs.rows

theorem keepsFailures_inserts : Inserts KeepsFailures where
  refl _ _ member _ _ := member
  insert db job jobs _ inserted := by
    intro row member _ _
    dsimp only
    rw [Relational.Table.rows_insert? inserted]
    exact List.mem_append_left _ member

theorem keepsFailures_updateRun {runId : String} {fields : RunStore.RunUpdate} {db later : Db}
    (done : RunStore.updateRun runId fields db = .ok ((), later)) : KeepsFailures db later := by
  cases done
  exact fun _ member _ _ => member

theorem keepsFailures_delete {runId : String} {dropped : List String} {db later : Db}
    (settled : pendingFailure db runId = false)
    (done : NodeQueue.deleteNonTerminalJobsForRun runId db = .ok (dropped, later)) :
    KeepsFailures db later := by
  cases done
  intro row member _ pending
  refine List.mem_filter.mpr ⟨member, ?_⟩
  by_cases mine : row.runId = runId
  · have found := pendingFailure_iff.mpr ⟨row.nodeId, pending⟩
    rw [mine, settled] at found
    cases found
  · simp [mine]

/-- Nothing of the run is live, and none of its failures is pending. -/
def Settled (runId : String) (db : Db) : Prop :=
  ¬ Live runId db ∧ pendingFailure db runId = false

theorem keepsFailures_sweepable :
    Sweepable Settled (fun runId db => pendingFailure db runId = false) KeepsFailures where
  inserts := keepsFailures_inserts
  updateRun _ _ _ _ done := keepsFailures_updateRun done
  reads _ _ settled none := ⟨none, settled⟩
  deletes _ _ _ _ settled done := keepsFailures_delete settled.2 done

/-- A restart deletes in its first transaction, and counts on nothing before it. -/
def restartTerms (granted : String → Db → Prop) (good : Db → Db → Prop) : Terms Db Site where
  stable _ held := held = (fun _ => True) ∨ held = (fun _ => False)
  given site db _ := site.place = .restartDelete → granted site.run db
  safe _ _ := True
  good := good
  idle _ := .inl rfl
  void _ := .inr rfl

theorem outline_restart {host : Host} {fuel : Nat} {runId : String} :
    (NodePool.restartRun cfg host fuel runId).Outline
      (restartTerms (fun runId db => pendingFailure db runId = false) KeepsFailures)
      (fun _ _ => True) fun _ => True := by
  refine Outline.commit_bind (.inl rfl) (fun _ _ => trivial) ?_ fun _ _ _ => trivial
  intro db dropped later _ settled done
  refine ⟨keepsFailures_delete (settled rfl) done, fun _ => True, trivial, ?_⟩
  refine Outline.of_always ?_ (fun _ _ => trivial) fun _ _ => trivial
  refine Always.bind (keepsFailures_inserts.startRun ?_) fun _ => trivial
  intro _ _ _ updated
  exact keepsFailures_updateRun updated

end Rows

/-! ### Verdicts of the drains -/

section Verdicts

variable {cfg : Config} {host : Host} {fuel : Nat}

/-- The node for whose failure the statement moves the run. -/
def Place.verdict? : Place → Option String
  | .cancelSiblings nodeId | .setFailed nodeId => some nodeId
  | _ => none

/-- A verdict is passed only on a failure of the batch. -/
def Accused (batch : List DispatchEvent) (site : Site) : Prop :=
  ∀ nodeId, site.place.verdict? = some nodeId →
    ∃ event ∈ batch, event.kind = .failed ∧ event.runId = site.run ∧ event.nodeId = nodeId

theorem accused_of_silent {batch : List DispatchEvent} {site : Site}
    (silent : site.place.verdict? = none) : Accused batch site := by
  intro nodeId verdict
  rw [silent] at verdict
  cases verdict

variable {batch : List DispatchEvent} {runId nodeId : String}

theorem accused_onNodeCompleted :
    (Dispatcher.onNodeCompleted cfg host runId nodeId fuel).Marked (Accused batch) := by
  refine Marked.bind (Marked.commit (accused_of_silent rfl)) fun found => ?_
  cases found with
  | none => trivial
  | some run =>
    dsimp only
    split
    · trivial
    · refine Marked.bind (Marked.commit (accused_of_silent rfl)) fun existing => ?_
      split
      · exact (marked_finishPatchJob (accused_of_silent rfl) (accused_of_silent rfl)
          (accused_of_silent rfl)).bind fun _ => trivial
      · refine marked_advanceRun (fun place expands => accused_of_silent ?_)
          (accused_of_silent rfl) (accused_of_silent rfl)
        cases place <;> first | rfl | cases expands

theorem accused_onNodeFailed (charged : ∃ event ∈ batch, event.kind = .failed ∧
      event.runId = runId ∧ event.nodeId = nodeId) :
    (Dispatcher.onNodeFailed cfg runId nodeId).Marked (Accused batch) := by
  have verdict {place : Place} (about : place.verdict? = some nodeId) :
      Accused batch ⟨place, runId, []⟩ := by
    intro named same
    cases about.symm.trans same
    exact charged
  refine Marked.bind (Marked.commit (accused_of_silent rfl)) fun found => ?_
  split
  · trivial
  · refine Marked.bind (Marked.commit (accused_of_silent rfl)) fun existing => ?_
    split
    · unfold Dispatcher.flagPatchError
      exact marked_bumpInputSpec (accused_of_silent rfl) (accused_of_silent rfl)
    · exact Marked.bind (Marked.commit (verdict rfl)) fun _ => Marked.commit (verdict rfl)

theorem accused_onNodeAwaitingInput :
    (Dispatcher.onNodeAwaitingInput cfg host runId nodeId).Marked (Accused batch) := by
  refine Marked.bind (Marked.commit (accused_of_silent rfl)) fun found => ?_
  cases found with
  | none => trivial
  | some run =>
    dsimp only
    split
    · trivial
    · refine (Marked.ofExcept _).bind fun wf => ?_
      split
      · trivial
      · refine Marked.bind (Marked.handle (Marked.commit (accused_of_silent rfl)) fun _ => trivial)
          fun siblings => (Marked.ofExcept _).bind fun spec => ?_
        exact Marked.handle (Marked.commit (accused_of_silent rfl)) fun _ => trivial

theorem accused_lockRun {handled : NodePool.Handled} :
    (NodePool.lockRun handled).Marked (Accused batch) := by
  cases handled with
  | succeeded event => trivial
  | raised event error =>
    dsimp only [NodePool.lockRun]
    split
    · exact Marked.commit (accused_of_silent rfl)
    · trivial

theorem accused_handleEvents {events : List DispatchEvent} {locked : List String}
    (inside : ∀ event ∈ events, event ∈ batch) :
    (NodePool.handleEvents cfg host fuel locked events).Marked (Accused batch) := by
  induction events generalizing locked with
  | nil => trivial
  | cons event rest ih =>
    have calls : (NodePool.callback cfg host fuel event).Marked (Accused batch) := by
      unfold NodePool.callback
      split
      · exact accused_onNodeCompleted.bind fun _ => trivial
      · rename_i failed
        exact accused_onNodeFailed ⟨event, inside event List.mem_cons_self, failed, rfl, rfl⟩
      · exact accused_onNodeAwaitingInput
    have handles : (NodePool.handleEvent cfg host fuel event).Marked (Accused batch) :=
      Marked.handle (calls.bind fun _ => trivial) fun _ => trivial
    refine (handles.awaiting _).bind fun _ => accused_lockRun.bind fun _ => ?_
    refine Marked.bind (ih fun other member => ?_) fun _ => trivial
    exact inside other (List.mem_cons_of_mem _ member)

theorem accused_drain : (NodePool.drainDispatchEvents cfg host fuel batch).Marked (Accused batch) :=
  (accused_handleEvents fun _ member => member).bind fun _ =>
    Marked.commit (accused_of_silent rfl)

end Verdicts

/-! ### The system -/

section System

variable {cfg : Config} {sys after : Sys} {label : Label}

def Sworn (path : Path) (_ : Db) : Prop :=
  ∀ batch, path.role = .drain batch → path.prog.Marked (Accused batch)

theorem sworn_rule : Pool.Rule (fun _ _ => True) Sworn where
  stable held _ := held
  step held stepped := ⟨trivial, fun batch role => (held batch role).step stepped⟩
  blip held failed := fun batch role => (held batch role).blip failed

theorem reach_sworn {ok : Sys → Label → Bool} (reached : Reach (step cfg) ok Sys.empty sys) :
    sys.All Sworn := by
  refine reached.invariant (by simp [Sys.empty, Pool.All]) fun state label after all _ stepped => ?_
  refine (step_all sworn_rule (fun _ => trivial) (fun _ => trivial) (fun _ _ => trivial)
    (fun role prog starts _ batch drains => ?_) all stepped).2
  generalize after.store = db at starts
  subst drains
  cases starts
  exact accused_drain

/-- The sweep reads, and a restart deletes, only where no failure of the run is pending. -/
def readsSettled (sys : Sys) (label : Label) : Bool :=
  (label.mover.bind fun index => sys.actors[index]?).all fun path => path.prog.site?.all fun site =>
    !(site.place == .reconcileJobs || site.place == .restartDelete) ||
      !pendingFailure sys.store site.run

/-- Besides, no other path gives a run its first live row while a sweep acts on
having seen none. -/
def failuresSettled (cfg : Config) (sys : Sys) (label : Label) : Bool :=
  arrivesUnswept cfg sys label && readsSettled sys label

theorem settled_of_allowed {index : Nat} {path : Path} {site : Site}
    (allowed : readsSettled sys label = true) (own : label.mover = some index)
    (found : sys.actors[index]? = some path) (stands : path.prog.site? = some site)
    (place : site.place = .reconcileJobs ∨ site.place = .restartDelete) :
    pendingFailure sys.store site.run = false := by
  simp only [readsSettled, own, Option.bind_some, found, Option.all_some, stands] at allowed
  rcases place with place | place <;> simpa [place] using allowed

def Role.isRestart : Role → Prop
  | .restart _ => True
  | _ => False

/-- The invariant of a run under the condition. -/
structure Judged (sys : Sys) : Prop where
  sweeps : Outlines (sweepTerms Settled (fun runId db => pendingFailure db runId = false)
    KeepsFailures) Role.isSweep sys
  restarts : Outlines (restartTerms (fun runId db => pendingFailure db runId = false)
    KeepsFailures) Role.isRestart sys
  stand : ∀ runId nodeId, PendingFailure runId nodeId sys.store → FailedRow runId nodeId sys.store

theorem step_sweeps_settled {ok : Sys → Label → Bool} (reached : Reach (step cfg) ok Sys.empty sys)
    (judged : Judged sys) (allowed : failuresSettled cfg sys label = true)
    (stepped : step cfg sys label = some after) :
    Outlines (sweepTerms Settled (fun runId db => pendingFailure db runId = false)
      KeepsFailures) Role.isSweep after := by
  obtain ⟨unswept, settled⟩ := Bool.and_eq_true_iff.mp allowed
  refine step_sweeps keepsFailures_sweepable judged.sweeps ?_ ?_ stepped
  · intro index path runId found other acts calm
    refine ⟨unlive_of_allowed unswept stepped found other acts calm.1, ?_⟩
    by_contra pending
    obtain ⟨nodeId, new⟩ := pendingFailure_iff.mp (by simpa using pending)
    rcases failure_origin reached stepped new with old | ⟨live, -⟩
    · have found := pendingFailure_iff.mpr ⟨nodeId, old⟩
      rw [calm.2] at found
      cases found
    · exact calm.1 live
  · intro index path site found own _ stands reads
    exact settled_of_allowed settled own found stands (.inl reads)

theorem step_restarts (judged : Judged sys) (allowed : failuresSettled cfg sys label = true)
    (stepped : step cfg sys label = some after) :
    Outlines (restartTerms (fun runId db => pendingFailure db runId = false)
      KeepsFailures) Role.isRestart after := by
  refine step_outlines judged.restarts ?_ ?_ ?_ stepped
  · intro index path _ _ _ site _ held stable holds
    rcases stable with rfl | rfl
    · trivial
    · exact holds
  · intro index path found own _ site stands deletes
    exact settled_of_allowed (Bool.and_eq_true_iff.mp allowed).2 own found stands (.inr deletes)
  · intro role prog starts covered
    generalize after.store = db at starts
    cases starts with
    | restart => exact ⟨_, trivial, outline_restart⟩
    | _ => exact covered.elim

/-- Under the condition no step takes away a failed row whose failure is pending. -/
theorem failed_row_kept {ok : Sys → Label → Bool} {row : NodeJob}
    (reached : Reach (step cfg) ok Sys.empty sys) (judged : Judged sys)
    (allowed : failuresSettled cfg sys label = true) (stepped : step cfg sys label = some after)
    (present : row ∈ sys.store.jobs.rows) (failed : row.status = .failed)
    (pending : PendingFailure row.runId row.nodeId sys.store) :
    ∃ new ∈ after.store.jobs.rows, new.key = row.key ∧ new.status = .failed := by
  have settled := (Bool.and_eq_true_iff.mp allowed).2
  suffices kept : ∃ new ∈ after.store.jobs.rows, new.key = row.key by
    obtain ⟨new, member, key⟩ := kept
    exact ⟨new, member, key, failed_row_stays reached stepped present failed member key⟩
  by_cases idle : ∀ index path, label = .advance index → sys.actors[index]? = some path →
      path.role.deletes = false
  · exact step_keeps_rows reached stepped idle row present
  · push Not at idle
    obtain ⟨index, path, rfl, found, deletes⟩ := idle
    have good : after.store = sys.store ∨ KeepsFailures sys.store after.store := by
      cases role : path.role with
      | sweep runIds =>
        refine judged.sweeps.good found (by rw [role]; trivial) ?_ stepped
        intro site stands reads
        exact settled_of_allowed settled rfl found stands (.inl reads)
      | restart runId =>
        refine judged.restarts.good found (by rw [role]; trivial) ?_ stepped
        intro site stands reads
        exact settled_of_allowed settled rfl found stands (.inr reads)
      | _ =>
        rw [role] at deletes
        exact absurd rfl deletes
    rcases good with same | keeps
    · exact ⟨row, same ▸ present, rfl⟩
    · exact ⟨row, keeps row present failed pending, rfl⟩

theorem reach_judged (reached : Reach (step cfg) (failuresSettled cfg) Sys.empty sys) :
    Judged sys := by
  induction reached with
  | start =>
    refine ⟨fun _ member => (nomatch member), fun _ member => (nomatch member), ?_⟩
    rintro runId nodeId ⟨event, member, -⟩
    cases member
  | next label before allowed stepped judged =>
    refine ⟨step_sweeps_settled before judged allowed stepped,
      step_restarts judged allowed stepped, fun runId nodeId pending => ?_⟩
    rcases failure_origin before stepped pending with old | ⟨-, new⟩
    · obtain ⟨row, present, rfl, rfl, failed⟩ := judged.stand runId nodeId old
      obtain ⟨new, member, key, status⟩ :=
        failed_row_kept before judged allowed stepped present failed old
      exact ⟨new, member, congrArg (·.2.1) key, congrArg (·.2.2) key, status⟩
    · exact new

/-- Failure verdicts. As long as no sweep reads and no restart deletes a run with a
pending failure, a drain that moves a run to `failed`, or cancels its queued rows, for
a node finds the row of that node failed, and no step deletes a failed row whose
failure is pending. -/
theorem failure_verdict_on_failed_row
    (reached : Reach (step cfg) (failuresSettled cfg) Sys.empty sys) :
    (∀ path ∈ sys.actors, ∀ batch site nodeId, path.role = .drain batch →
      path.prog.site? = some site → site.place.verdict? = some nodeId →
        ∃ row ∈ sys.store.jobs.rows, row.runId = site.run ∧ row.nodeId = nodeId ∧
          row.status = .failed) ∧
    ∀ label after, failuresSettled cfg sys label = true → step cfg sys label = some after →
      ∀ row ∈ sys.store.jobs.rows, row.status = .failed →
        (∃ event ∈ sys.store.events, event.kind = .failed ∧ event.runId = row.runId ∧
          event.nodeId = row.nodeId ∧ event.processedAt = none) →
        ∃ new ∈ after.store.jobs.rows, new.key = row.key ∧ new.status = .failed := by
  have judged := reach_judged reached
  constructor
  · intro path member batch site nodeId role stands verdict
    obtain ⟨event, inside, failed, run, node⟩ :=
      ((reach_sworn reached path member) batch role).here stands nodeId verdict
    have flying : path.prog.inFlight = true := by
      cases program : path.prog <;> rw [program] at stands <;> first | rfl | cases stands
    obtain ⟨stored, present, ident, unprocessed⟩ :=
      (reach_ledger reached).held path member batch role flying event inside
    simp only [DispatchEvent.ident, Prod.mk.injEq] at ident
    exact judged.stand site.run nodeId ⟨stored, present, ident.2.2.2.trans failed,
      ident.2.1.trans run, ident.2.2.1.trans node, unprocessed⟩
  · intro label after allowed stepped row present failed pending
    exact failed_row_kept reached judged allowed stepped present failed pending

/-- A host whose nodes fail. -/
def Sample.failing : Host := { Sample.host with invoke := fun _ _ => .error ⟨.other "E", ""⟩ }

/-- Row 1 fails, and a drain stands before its verdict on the run. -/
def Sample.failed : List Label :=
  List.flatten [
    Sample.answered, [.claimCpu { host := "a" } Sample.failing false],
    List.replicate 5 (.advance 2), [.drain Sample.host 2], List.replicate 3 (.advance 3)]

/-- Where a drain stands. -/
def Path.drains? (path : Path) : Option Site :=
  match path.role with
  | .drain _ => path.prog.site?
  | _ => none

theorem failed_row_judged : ∃ sys : Sys,
    (sys.actors[3]?.bind fun path => path.prog.site?.map Site.place) = some (.setFailed "left/n") ∧
      ∃ row ∈ sys.store.jobs.rows, row.runId = "r" ∧ row.nodeId = "left/n" ∧
        row.status = .failed := by
  have reached : Reach (step Sample.config) (failuresSettled Sample.config) Sys.empty
      ((follow (step Sample.config) (failuresSettled Sample.config) Sys.empty
        Sample.failed).getD Sys.empty) := Reach.follow_getD Sample.failed (by decide +kernel)
  have stands : (((follow (step Sample.config) (failuresSettled Sample.config) Sys.empty
      Sample.failed).getD Sys.empty).actors[3]?.bind Path.drains?) =
        some ⟨.setFailed "left/n", "r", []⟩ := by decide +kernel
  obtain ⟨path, acting, drains⟩ := Option.bind_eq_some_iff.mp stands
  have row : ∀ batch, path.role = .drain batch → _ := fun batch role =>
    (failure_verdict_on_failed_row reached).1 path (List.mem_of_getElem? acting) batch
      ⟨.setFailed "left/n", "r", []⟩ "left/n" role
      (by rw [Path.drains?, role] at drains; exact drains) rfl
  refine ⟨(follow (step Sample.config) (failuresSettled Sample.config) Sys.empty
    Sample.failed).getD Sys.empty, by decide +kernel, ?_⟩
  cases role : path.role with
  | drain batch => exact row batch role
  | _ =>
    rw [Path.drains?, role] at drains
    cases drains

/-- Both rows of the run fail between a drain and a sweep; the sweep deletes them and
puts their nodes back on the queue; then their events are drained. -/
def Sample.requeuedFailures : List Label :=
  List.flatten [
    Sample.answered, [.claimCpu { host := "a" } Sample.failing false],
    List.replicate 5 (.advance 2), [.claimCpu { host := "b" } Sample.failing false],
    List.replicate 5 (.advance 3), [.sweep Sample.host 2], List.replicate 11 (.advance 4),
    [.drain Sample.host 2], List.replicate 3 (.advance 5)]

/-- The stale event fails the run whose node is queued again. -/
theorem requeued_run_failed : ∃ sys after : Sys,
    Reach (step Sample.config) anyStep Sys.empty sys ∧
      (sys.actors[5]?.bind fun path => path.prog.site?.map Site.place) =
        some (.setFailed "left/n") ∧
      (sys.store.jobs.rows.all fun row => row.status != .failed) = true ∧
      step Sample.config sys (.advance 5) = some after ∧
      (sys.store.run? "r").map RunRow.status = some .running ∧
      (after.store.run? "r").map RunRow.status = some .failed := by
  have reached := Sample.reach_after Sample.requeuedFailures (by decide +kernel)
  have wrote : ((step Sample.config (Sample.after Sample.requeuedFailures) (.advance 5)).map
      fun after => (after.store.run? "r").map RunRow.status) = some (some .failed) := by decide +kernel
  obtain ⟨after, stepped, status⟩ := Option.map_eq_some_iff.mp wrote
  exact ⟨_, after, reached, by decide +kernel, by decide +kernel, stepped, by decide +kernel, status⟩

end System

end QueueWorkflows
