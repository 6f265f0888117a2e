import QueueWorkflows.Engine.Backlog
import QueueWorkflows.Engine.Drain
import QueueWorkflows.Engine.Invariants

/-! Phantoms: runs that are not terminal and have nothing left that would drive them.
Each of the steps that expand a run, alone, and exactly when it leaves one behind. -/

namespace QueueWorkflows

open Transaction (Prog)
open Transaction.Prog (Solo commit ofExcept)
open Dispatcher (dagOf findReadyNodes allSatisfied)

/-- An event of the run has not been processed yet. -/
def Pending (runId : String) (db : Db) : Prop :=
  ∃ event ∈ db.events, event.runId = runId ∧ event.processedAt = none

/-- The run is not terminal, and has neither a live row nor an open event. -/
def Phantom (runId : String) (db : Db) : Prop :=
  (∃ run, db.run? runId = some run ∧ run.status.terminal = false) ∧
    ¬ Pending runId db ∧ ¬ Live runId db

/-- The run is terminal, or has a live row. -/
def Driven (runId : String) (db : Db) : Prop :=
  ∀ run, db.run? runId = some run → run.status.terminal = true ∨ Live runId db

/-- An expansion of the table writes a queued row before anything raises. -/
def Feeds (cfg : Config) (host : Host) (run : RunRow) (nodes : List DagNode)
    (existing : List NodeJob) : Prop :=
  ∃ row ∈ placedRows cfg host run existing [] (trail cfg run nodes existing), row.2 = .queued

/-- The completed and skipped rows of a table, which a reconciliation keeps. -/
def cursor (existing : List NodeJob) : List NodeJob :=
  existing.filter fun job => job.status.satisfied

section Rows

variable {cfg : Config} {host : Host} {run : RunRow} {nodes : List DagNode} {db middle after : Db}
  {new existing : List NodeJob} {fields : RunStore.RunUpdate}

theorem live_jobsOf {runId : String} :
    Live runId db ↔ ∃ job ∈ db.jobsOf runId, job.status.live = true := by
  simp only [Live, Db.mem_jobsOf, and_assoc]

theorem Feeds.ready (feeds : Feeds cfg host run nodes existing) :
    findReadyNodes nodes existing ≠ [] := by
  intro none
  obtain ⟨row, member, -⟩ := feeds
  rw [trail_eq_nil.mpr none] at member
  exact List.not_mem_nil member

/-- The live rows after an expansion. -/
theorem Grown.live (grown : Grown run.id db after new)
    (looks : new.map (fun job => (job.nodeId, job.status)) =
      placedRows cfg host run existing [] (trail cfg run nodes existing)) :
    Live run.id after ↔ Live run.id db ∨ Feeds cfg host run nodes existing := by
  rw [live_jobsOf, live_jobsOf, grown.jobsOf]
  simp only [List.mem_append, or_and_right, exists_or]
  refine or_congr_right ?_
  unfold Feeds
  constructor
  · rintro ⟨job, present, live⟩
    have listed := looks ▸ List.mem_map_of_mem (f := fun job : NodeJob =>
      (job.nodeId, job.status)) present
    refine ⟨_, listed, ?_⟩
    rcases placedRows_status listed with skipped | queued
    · have same : job.status = .skipped := skipped
      rw [same] at live
      cases live
    · exact queued
  · rintro ⟨row, listed, queued⟩
    rw [← looks] at listed
    obtain ⟨job, present, rfl⟩ := List.mem_map.mp listed
    have same : job.status = .queued := queued
    exact ⟨job, present, by rw [same]; rfl⟩

theorem Grown.pending {runId : String} (grown : Grown run.id db after new) :
    Pending runId after ↔ Pending runId db := by
  rw [grown.frame]
  rfl

theorem Grown.row {runId : String} (grown : Grown run.id db after new) :
    after.run? runId = db.run? runId := by
  rw [Db.run?, grown.runs, Db.run?]

theorem live_updateRun {runId other : String}
    (done : RunStore.updateRun runId fields db = .ok ((), after)) :
    Live other after ↔ Live other db := by
  unfold Live
  rw [jobs_updateRun done]

theorem pending_updateRun {runId other : String}
    (done : RunStore.updateRun runId fields db = .ok ((), after)) :
    Pending other after ↔ Pending other db := by
  cases done
  rfl

theorem status_updateRun (found : db.run? run.id = some run)
    (done : RunStore.updateRun run.id fields db = .ok ((), after)) :
    ∃ row, after.run? run.id = some row ∧ row.status = fields.status := by
  have stored : after.run? run.id = _ := run?_updateRun done
  rw [found, Option.map_some, beq_self_eq_true, if_pos rfl] at stored
  exact ⟨_, stored, rfl⟩

/-- Whether a run is a phantom, by its row. -/
theorem phantom_iff {runId : String} {row : RunRow} (found : db.run? runId = some row) :
    ¬ Phantom runId db ↔ row.status.terminal = true ∨ Pending runId db ∨ Live runId db := by
  have unfinished : (∃ run, db.run? runId = some run ∧ run.status.terminal = false) ↔
      ¬ row.status.terminal = true := by
    rw [found, Bool.not_eq_true]
    constructor
    · rintro ⟨run, same, live⟩
      cases same
      exact live
    · exact fun live => ⟨row, rfl, live⟩
  unfold Phantom
  rw [unfinished, ← not_or, ← not_or, not_not]

theorem driven_iff {runId : String} {row : RunRow} (found : db.run? runId = some row) :
    Driven runId db ↔ row.status.terminal = true ∨ Live runId db := by
  unfold Driven
  rw [found]
  exact ⟨fun all => all row rfl, fun driven run same => Option.some.inj same ▸ driven⟩

end Rows

/-! ### The tick -/

section Tick

variable {cfg : Config} {host : Host} {run : RunRow} {db after : Db}

theorem only_dag {nodes : List DagNode} {holds : List DagNode → Prop}
    (expands : dagOf cfg run = .ok nodes) :
    (∃ nodes, dagOf cfg run = .ok nodes ∧ holds nodes) ↔ holds nodes := by
  constructor
  · rintro ⟨others, same, holds⟩
    cases expands.symm.trans same
    exact holds
  · exact fun holds => ⟨nodes, expands, holds⟩

theorem Turned.phantom_iff (found : db.run? run.id = some run) (queued : run.status = .queued)
    (turned : Turned cfg host run db after) :
    ¬ Phantom run.id after ↔ Pending run.id db ∨ Live run.id db ∨ Rejects cfg run ∨
      ∃ nodes, dagOf cfg run = .ok nodes ∧ Feeds cfg host run nodes (db.jobsOf run.id) := by
  have going : ¬ run.status.terminal = true := by
    rw [queued]
    nofun
  cases turned with
  | unloaded unreadable spared =>
    rw [QueueWorkflows.phantom_iff found]
    constructor
    · rintro (ended | pending | live)
      · exact absurd ended going
      · exact .inl pending
      · exact .inr (.inl live)
    · rintro (pending | live | rejects | ⟨nodes, expands, -⟩)
      · exact .inr (.inl pending)
      · exact .inr (.inr live)
      · exact absurd rejects spared
      · cases unreadable.symm.trans expands
  | rejected rejects done =>
    obtain ⟨row, stored, failed⟩ := status_updateRun found done
    rw [QueueWorkflows.phantom_iff stored, failed]
    exact iff_of_true (.inl rfl) (.inr (.inr (.inl rejects)))
  | started expands accepted grown looks some smooth done =>
    obtain ⟨row, stored, runs⟩ := status_updateRun (grown.row.trans found) done
    rw [QueueWorkflows.phantom_iff stored, runs, pending_updateRun done, live_updateRun done,
      grown.pending, grown.live looks, only_dag expands]
    have spared : ¬ Rejects cfg run := fun rejects => rejects.offends expands accepted
    rw [or_iff_right spared]
    exact or_iff_right nofun
  | waiting expands accepted grown looks idle =>
    rw [QueueWorkflows.phantom_iff (grown.row.trans found), grown.pending, grown.live looks,
      or_iff_right going, only_dag expands]
    have spared : ¬ Rejects cfg run := fun rejects => rejects.offends expands accepted
    rw [or_iff_right spared]

end Tick

/-! ### The callback of a completed node -/

section Callback

variable {cfg : Config} {host : Host} {run : RunRow} {nodes : List DagNode} {db after : Db}
  {existing new : List NodeJob} {fuel : Nat}

/-- What the callback makes of a run, for a row that is no patch. -/
inductive Called (cfg : Config) (host : Host) (run : RunRow) (db : Db) : Db → Prop
  | halted (fenced : run.status.halted = true) : Called cfg host run db db
  | unloaded {error : PyErr} (unreadable : dagOf cfg run = .error error) :
      Called cfg host run db db
  | raised {nodes : List DagNode} {new : List NodeJob} {after : Db}
      (expands : dagOf cfg run = .ok nodes) (grown : Grown run.id db after new)
      (looks : new.map (fun job => (job.nodeId, job.status)) =
        placedRows cfg host run (db.jobsOf run.id) [] (trail cfg run nodes (db.jobsOf run.id)))
      (rough : ¬ Smooth cfg host run nodes (db.jobsOf run.id)) : Called cfg host run db after
  | finished {nodes : List DagNode} {new : List NodeJob} {finish : Option Time} {middle after : Db}
      (expands : dagOf cfg run = .ok nodes) (grown : Grown run.id db middle new)
      (looks : new.map (fun job => (job.nodeId, job.status)) =
        placedRows cfg host run (db.jobsOf run.id) [] (trail cfg run nodes (db.jobsOf run.id)))
      (smooth : Smooth cfg host run nodes (db.jobsOf run.id))
      (all : allSatisfied nodes (middle.jobsOf run.id) = true)
      (done : RunStore.updateRun run.id { status := .completed, finishedAt := finish }
        middle = .ok ((), after)) : Called cfg host run db after
  | going {nodes : List DagNode} {new : List NodeJob} {after : Db}
      (expands : dagOf cfg run = .ok nodes) (grown : Grown run.id db after new)
      (looks : new.map (fun job => (job.nodeId, job.status)) =
        placedRows cfg host run (db.jobsOf run.id) [] (trail cfg run nodes (db.jobsOf run.id)))
      (smooth : Smooth cfg host run nodes (db.jobsOf run.id))
      (unfinished : allSatisfied nodes (after.jobsOf run.id) = false) : Called cfg host run db after

theorem dagOf_cases (cfg : Config) (run : RunRow) :
    (∃ error, cfg.workflowLoader run.workflowName = .error error ∧ dagOf cfg run = .error error) ∨
      ∃ wf, cfg.workflowLoader run.workflowName = .ok wf ∧
        dagOf cfg run = Dispatcher.nodesOf cfg wf run := by
  unfold dagOf
  cases cfg.workflowLoader run.workflowName with
  | error error => exact .inl ⟨error, rfl, rfl⟩
  | ok wf => exact .inr ⟨wf, rfl, rfl⟩

theorem solo_processReady_unreadable {wf : Workflow} {stale : List String} {error : PyErr}
    (listed : Dispatcher.nodesOf cfg wf run = .error error) (started : 0 < fuel) :
    (Dispatcher.processReady cfg host stale wf run fuel).Solo
      (fun outcome after => outcome = .error error ∧ after = db) db := by
  obtain ⟨fuel, rfl⟩ := Nat.exists_eq_add_one_of_ne_zero started.ne'
  unfold Dispatcher.processReady
  refine solo_listJobs ?_
  rw [listed]
  exact ⟨rfl, rfl⟩

theorem solo_advance (found : db.run? run.id = some run) (bounded : Bounded db) (started : 0 < fuel)
    (enough : ∀ nodes, dagOf cfg run = .ok nodes → nodes.length < fuel) :
    (Dispatcher.advanceRun cfg host run.id run fuel).Solo
      (fun _ after => Called cfg host run db after) db := by
  unfold Dispatcher.advanceRun
  rcases dagOf_cases cfg run with ⟨error, loads, unreadable⟩ | ⟨wf, loads, dag⟩
  · rw [loads]
    exact .unloaded unreadable
  · rw [loads]
    simp only [Prog.ofExcept_ok, Prog.bind_pure']
    cases listed : Dispatcher.nodesOf cfg wf run with
    | error error =>
      refine (solo_processReady_unreadable listed started).bind (fun _ _ ends => ?_)
        fun _ _ ends => ?_
      · cases ends.1
      · rw [ends.2]
        exact .unloaded (dag.trans listed)
    | ok nodes =>
      have expands := dag.trans listed
      have stored : (db.run? run.id).isSome := by rw [found]; rfl
      refine (solo_expansion listed stored bounded (enough nodes expands)).bind
        (fun inserted middle done => ?_) fun error after done => ?_
      · obtain ⟨new, grown, looks, full, -⟩ := done
        have smooth := smooth_iff.mpr full
        refine solo_listJobs ?_
        simp only [Prog.ofExcept_ok, Prog.bind_pure']
        unfold Dispatcher.completeIfSatisfied
        split
        · rename_i all
          exact .finished expands grown looks smooth all rfl
        · rename_i unfinished
          exact .going expands grown looks smooth (Bool.eq_false_iff.mpr unfinished)
      · obtain ⟨new, grown, looks, short⟩ := done
        exact .raised expands grown looks fun smooth => short.ne (smooth_iff.mp smooth)

theorem solo_called {nodeId : String} (found : db.run? run.id = some run) (bounded : Bounded db)
    (started : 0 < fuel) (enough : ∀ nodes, dagOf cfg run = .ok nodes → nodes.length < fuel)
    (plain : isPatch db run.id nodeId = false) :
    (Dispatcher.onNodeCompleted cfg host run.id nodeId fuel).Solo
      (fun _ after => Called cfg host run db after) db := by
  unfold Dispatcher.onNodeCompleted
  refine solo_getRun ?_
  rw [found]
  simp only
  split
  · rename_i fenced
    exact .halted fenced
  · refine solo_listJobs ?_
    rcases patchRow_cases db run.id nodeId with ⟨patch, -⟩ | ⟨-, row⟩
    · rw [plain] at patch
      cases patch
    · rw [row]
      exact solo_advance found bounded started enough

theorem skipped_of_starved {existing new : List NodeJob}
    (looks : new.map (fun job => (job.nodeId, job.status)) =
      placedRows cfg host run existing [] (trail cfg run nodes existing))
    (starved : ¬ Feeds cfg host run nodes existing) : ∀ job ∈ new, job.status = .skipped := by
  intro job present
  have listed := looks ▸ List.mem_map_of_mem (f := fun job : NodeJob =>
    (job.nodeId, job.status)) present
  exact (placedRows_status listed).elim id fun queued => absurd ⟨_, listed, queued⟩ starved

/-- Every node has a satisfied row, or gets one. -/
def Completes (cfg : Config) (run : RunRow) (nodes : List DagNode) (db : Db) : Prop :=
  nodes ≠ [] ∧ ∀ node ∈ nodes, Satisfied db run.id node.id ∨
    ∃ other ∈ trail cfg run nodes (db.jobsOf run.id), other.id = node.id

/-- Where no queued row is written, the DAG is satisfied if and only if it completes. -/
theorem allSatisfied_iff (grown : Grown run.id db after new)
    (looks : new.map (fun job => (job.nodeId, job.status)) =
      placedRows cfg host run (db.jobsOf run.id) [] (trail cfg run nodes (db.jobsOf run.id)))
    (smooth : Smooth cfg host run nodes (db.jobsOf run.id))
    (starved : ¬ Feeds cfg host run nodes (db.jobsOf run.id)) :
    allSatisfied nodes (after.jobsOf run.id) = true ↔ Completes cfg run nodes db := by
  have names : new.map NodeJob.nodeId =
      (trail cfg run nodes (db.jobsOf run.id)).map DagNode.id := by
    have named := congrArg (List.map Prod.fst) looks
    rw [List.map_map] at named
    refine named.trans (placedRows_names.eq_of_length ?_)
    rw [List.length_map, List.length_map, smooth_iff.mp smooth]
  have skipped := skipped_of_starved looks starved
  have satisfied (nodeId : String) : Satisfied after run.id nodeId ↔
      Satisfied db run.id nodeId ∨ nodeId ∈ new.map NodeJob.nodeId := by
    rw [satisfied_iff, satisfied_iff, grown.jobsOf, List.any_append, Bool.or_eq_true]
    refine or_congr_right ?_
    rw [List.any_eq_true, List.mem_map]
    constructor
    · rintro ⟨job, present, looks⟩
      simp only [Bool.and_eq_true, beq_iff_eq] at looks
      exact ⟨job, present, looks.1⟩
    · rintro ⟨job, present, same⟩
      exact ⟨job, present, by simp [same, skipped job present, JobStatus.satisfied]⟩
  rw [Cells.finished_eq, ← Db.cells, finished_iff, Completes]
  simp only [satisfied, names, List.mem_map]

/-- What the callback leaves. -/
theorem Called.phantom_iff (found : db.run? run.id = some run)
    (called : Called cfg host run db after) :
    ¬ Phantom run.id after ↔ run.status.terminal = true ∨ Pending run.id db ∨ Live run.id db ∨
      ∃ nodes, dagOf cfg run = .ok nodes ∧ (Feeds cfg host run nodes (db.jobsOf run.id) ∨
        Smooth cfg host run nodes (db.jobsOf run.id) ∧ Completes cfg run nodes db) := by
  cases called with
  | halted fenced =>
    rw [QueueWorkflows.phantom_iff found]
    have ended : run.status.terminal = true := by
      cases status : run.status <;> rw [status] at fenced <;> first | rfl | cases fenced
    exact iff_of_true (.inl ended) (.inl ended)
  | unloaded unreadable =>
    rw [QueueWorkflows.phantom_iff found]
    have none : ¬ ∃ nodes, dagOf cfg run = .ok nodes ∧
        (Feeds cfg host run nodes (db.jobsOf run.id) ∨
          Smooth cfg host run nodes (db.jobsOf run.id) ∧ Completes cfg run nodes db) := by
      rintro ⟨nodes, expands, -⟩
      cases unreadable.symm.trans expands
    rw [or_iff_left none]
  | raised expands grown looks rough =>
    rw [QueueWorkflows.phantom_iff (grown.row.trans found), grown.pending, grown.live looks,
      only_dag expands]
    refine or_congr_right (or_congr_right (or_congr_right (or_iff_left ?_).symm))
    exact fun both => rough both.1
  | finished expands grown looks smooth all done =>
    obtain ⟨row, stored, completed⟩ := status_updateRun (grown.row.trans found) done
    rw [QueueWorkflows.phantom_iff stored, completed, only_dag expands]
    refine iff_of_true (.inl rfl) (.inr (.inr (.inr ?_)))
    refine or_iff_not_imp_left.mpr fun starved => ?_
    exact ⟨smooth, (allSatisfied_iff grown looks smooth starved).mp all⟩
  | going expands grown looks smooth unfinished =>
    rw [QueueWorkflows.phantom_iff (grown.row.trans found), grown.pending, grown.live looks,
      only_dag expands]
    refine or_congr_right (or_congr_right (or_congr_right (or_iff_left_of_imp ?_).symm))
    rintro ⟨-, completes⟩
    by_contra starved
    rw [(allSatisfied_iff grown looks smooth starved).mpr completes] at unfinished
    cases unfinished

end Callback

/-! ### The reconciler -/

section Reconcile

variable {cfg : Config} {host : Host} {run : RunRow} {nodes : List DagNode} {db after : Db}
  {fuel : Nat}

/-- The store without the run's rows that are neither completed nor skipped. -/
def swept (runId : String) (db : Db) : Db :=
  { db with jobs := db.jobs.delete fun job => job.runId == runId && !job.status.satisfied }

theorem jobsOf_swept (runId : String) (db : Db) :
    (swept runId db).jobsOf runId = cursor (db.jobsOf runId) := by
  simp only [Db.jobsOf, swept, cursor, Relational.Table.rows_delete, List.filter_filter]
  refine List.filter_congr fun job _ => ?_
  cases job.runId == runId <;> simp

theorem not_live_swept (runId : String) (db : Db) : ¬ Live runId (swept runId db) := by
  rw [live_jobsOf, jobsOf_swept]
  rintro ⟨job, present, live⟩
  have apart : ∀ status : JobStatus, status.live = true → status.satisfied = false := by
    intro status
    cases status <;> decide
  have satisfied := (List.mem_filter.mp present).2
  rw [apart job.status live] at satisfied
  cases satisfied

/-- What the second expansion makes of a run with no node ready. -/
inductive Requeued (cfg : Config) (host : Host) (run : RunRow) (nodes : List DagNode) (db : Db) :
    Db → Prop
  | raised {new : List NodeJob} {after : Db} (grown : Grown run.id (swept run.id db) after new)
      (looks : new.map (fun job => (job.nodeId, job.status)) =
        placedRows cfg host run (cursor (db.jobsOf run.id)) []
          (trail cfg run nodes (cursor (db.jobsOf run.id))))
      (rough : ¬ Smooth cfg host run nodes (cursor (db.jobsOf run.id))) :
      Requeued cfg host run nodes db after
  | requeued {new : List NodeJob} {middle after : Db}
      (grown : Grown run.id (swept run.id db) middle new)
      (looks : new.map (fun job => (job.nodeId, job.status)) =
        placedRows cfg host run (cursor (db.jobsOf run.id)) []
          (trail cfg run nodes (cursor (db.jobsOf run.id))))
      (some : findReadyNodes nodes (cursor (db.jobsOf run.id)) ≠ [])
      (done : RunStore.updateRun run.id { status := .running } middle = .ok ((), after)) :
      Requeued cfg host run nodes db after
  | failed {finish : Option Time} {error : Option String} {new : List NodeJob} {middle after : Db}
      (grown : Grown run.id (swept run.id db) middle new)
      (none : findReadyNodes nodes (cursor (db.jobsOf run.id)) = [])
      (done : RunStore.updateRun run.id
        { status := .failed, finishedAt := finish, error := error } middle = .ok ((), after)) :
      Requeued cfg host run nodes db after

theorem solo_expandDropped {wf : Workflow} (listed : Dispatcher.nodesOf cfg wf run = .ok nodes)
    (stored : (db.run? run.id).isSome) (bounded : Bounded db)
    (none : findReadyNodes nodes (db.jobsOf run.id) = []) (enough : nodes.length < fuel) :
    (Dispatcher.expandDropped cfg host run.id wf run fuel ((db.jobs.rows.filter fun job =>
      job.runId == run.id && !job.status.satisfied).map NodeJob.nodeId)).Solo
      (Writes run (swept run.id db)
        (placedRows cfg host run (cursor (db.jobsOf run.id)) []
          (trail cfg run nodes (cursor (db.jobsOf run.id))))
        (trail cfg run nodes (cursor (db.jobsOf run.id))).length id) (swept run.id db) := by
  have fewer : Bounded (swept run.id db) := fun job present =>
    bounded job (List.mem_of_mem_filter present)
  unfold Dispatcher.expandDropped
  split
  · rename_i nothing
    have kept : cursor (db.jobsOf run.id) = db.jobsOf run.id := by
      rw [List.isEmpty_iff, List.map_eq_nil_iff, List.filter_eq_nil_iff] at nothing
      refine List.filter_eq_self.mpr fun job present => ?_
      obtain ⟨inside, mine⟩ := Db.mem_jobsOf.mp present
      have spared := nothing job inside
      simpa [mine] using spared
    rw [kept, trail_eq_nil.mpr none]
    exact ⟨[], .refl fewer, rfl, rfl, rfl⟩
  · rw [← jobsOf_swept]
    exact solo_expansion listed stored fewer enough

theorem solo_requeueBlocked {wf : Workflow} (listed : Dispatcher.nodesOf cfg wf run = .ok nodes)
    (stored : (db.run? run.id).isSome) (bounded : Bounded db)
    (none : findReadyNodes nodes (db.jobsOf run.id) = []) (enough : nodes.length < fuel) :
    (Dispatcher.requeueBlocked cfg host run.id wf run fuel).Solo
      (fun _ after => Requeued cfg host run nodes db after) db := by
  unfold Dispatcher.requeueBlocked
  have deletes : (commit ⟨.reconcileDelete, run.id, [run.id]⟩
      (NodeQueue.deleteNonTerminalJobsForRun run.id) : Program (List String)).Solo
      (fun outcome middle => outcome = .ok ((db.jobs.rows.filter fun job =>
        job.runId == run.id && !job.status.satisfied).map NodeJob.nodeId) ∧
          middle = swept run.id db) db := ⟨rfl, rfl⟩
  refine deletes.bind (fun dropped middle ends => ?_) fun _ _ ends => absurd ends.1 nofun
  obtain ⟨same, rfl⟩ := ends
  cases same
  refine (solo_expandDropped listed stored bounded none enough).bind (fun expanded last done => ?_)
    fun error last done => ?_
  · obtain ⟨new, grown, looks, full, counted⟩ := done
    simp only [id] at counted
    split
    · rename_i some
      refine .requeued grown looks (fun idle => ?_) rfl
      rw [counted, trail_eq_nil.mpr idle] at some
      exact absurd some (Nat.lt_irrefl 0)
    · rename_i zero
      have empty : trail cfg run nodes (cursor (db.jobsOf run.id)) = [] :=
        List.length_eq_zero_iff.mp (by omega)
      exact .failed grown (trail_eq_nil.mp empty) rfl
  · obtain ⟨new, grown, looks, short⟩ := done
    exact .raised grown looks fun smooth => short.ne (smooth_iff.mp smooth)

/-- What `reconcile_run` makes of a run. -/
inductive Reconciliation (cfg : Config) (host : Host) (run : RunRow) (db : Db) : Db → Prop
  | left (driven : run.status.terminal = true ∨ Live run.id db) :
      Reconciliation cfg host run db db
  | unloaded {error : PyErr} (unreadable : dagOf cfg run = .error error) :
      Reconciliation cfg host run db db
  | finished {nodes : List DagNode} {finish : Option Time} {after : Db}
      (expands : dagOf cfg run = .ok nodes) (all : allSatisfied nodes (db.jobsOf run.id) = true)
      (done : RunStore.updateRun run.id { status := .completed, finishedAt := finish }
        db = .ok ((), after)) : Reconciliation cfg host run db after
  | raised {nodes : List DagNode} {new : List NodeJob} {after : Db}
      (expands : dagOf cfg run = .ok nodes) (unfinished : allSatisfied nodes (db.jobsOf run.id) = false)
      (grown : Grown run.id db after new)
      (looks : new.map (fun job => (job.nodeId, job.status)) =
        placedRows cfg host run (db.jobsOf run.id) [] (trail cfg run nodes (db.jobsOf run.id)))
      (some : findReadyNodes nodes (db.jobsOf run.id) ≠ []) : Reconciliation cfg host run db after
  | enqueued {nodes : List DagNode} {new : List NodeJob} {middle after : Db}
      (going : ¬ run.status.terminal = true)
      (expands : dagOf cfg run = .ok nodes) (unfinished : allSatisfied nodes (db.jobsOf run.id) = false)
      (grown : Grown run.id db middle new)
      (looks : new.map (fun job => (job.nodeId, job.status)) =
        placedRows cfg host run (db.jobsOf run.id) [] (trail cfg run nodes (db.jobsOf run.id)))
      (some : findReadyNodes nodes (db.jobsOf run.id) ≠ [])
      (done : RunStore.updateRun run.id { status := .running } middle = .ok ((), after)) :
      Reconciliation cfg host run db after
  | blocked {nodes : List DagNode} {middle after : Db}
      (going : ¬ run.status.terminal = true) (dead : ¬ Live run.id db)
      (expands : dagOf cfg run = .ok nodes) (unfinished : allSatisfied nodes (db.jobsOf run.id) = false)
      (none : findReadyNodes nodes (db.jobsOf run.id) = [])
      (same : middle.run? run.id = db.run? run.id ∧ middle.jobsOf run.id = db.jobsOf run.id)
      (requeued : Requeued cfg host run nodes middle after) : Reconciliation cfg host run db after

theorem solo_reconcileRun (found : db.run? run.id = some run) (bounded : Bounded db)
    (enough : ∀ nodes, dagOf cfg run = .ok nodes → nodes.length < fuel) :
    (Dispatcher.reconcileRun cfg host run.id fuel).Solo
      (fun _ after => Reconciliation cfg host run db after) db := by
  unfold Dispatcher.reconcileRun
  refine solo_getRun ?_
  rw [found]
  simp only
  split
  · rename_i ended
    exact .left (.inl ended)
  · rename_i going
    refine solo_listJobs ?_
    split
    · rename_i live
      exact .left (.inr (live_jobsOf.mpr (List.any_eq_true.mp live)))
    · rename_i dead
      have dead : ¬ Live run.id db := fun live =>
        dead (List.any_eq_true.mpr (live_jobsOf.mp live))
      rcases dagOf_cases cfg run with ⟨error, loads, unreadable⟩ | ⟨wf, loads, dag⟩
      · rw [loads]
        exact .unloaded unreadable
      · rw [loads]
        simp only [Prog.ofExcept_ok, Prog.bind_pure']
        cases listed : Dispatcher.nodesOf cfg wf run with
        | error error => exact .unloaded (dag.trans listed)
        | ok nodes =>
          have expands := dag.trans listed
          have stored : (db.run? run.id).isSome := by rw [found]; rfl
          simp only [Prog.ofExcept_ok, Prog.bind_pure']
          split
          · rename_i all
            exact .finished expands all rfl
          · rename_i unfinished
            have unfinished := Bool.eq_false_iff.mpr unfinished
            refine (solo_expansion listed stored bounded (enough nodes expands)).bind
              (fun expanded middle done => ?_) fun error after done => ?_
            · obtain ⟨new, grown, looks, full, counted⟩ := done
              simp only [id] at counted
              split
              · rename_i some
                refine .enqueued going expands unfinished grown looks (fun idle => ?_) rfl
                rw [counted, trail_eq_nil.mpr idle] at some
                exact absurd some (Nat.lt_irrefl 0)
              · rename_i zero
                have empty : trail cfg run nodes (db.jobsOf run.id) = [] :=
                  List.length_eq_zero_iff.mp (by omega)
                have none := trail_eq_nil.mp empty
                rw [empty] at looks
                obtain rfl := List.map_eq_nil_iff.mp looks
                have jobs : middle.jobsOf run.id = db.jobsOf run.id := by
                  rw [grown.jobsOf, List.append_nil]
                have known : (middle.run? run.id).isSome := by
                  rw [grown.row]
                  exact stored
                refine (solo_requeueBlocked listed known grown.bounded (jobs ▸ none)
                  (enough nodes expands)).weaken fun _ after requeued => ?_
                exact .blocked going dead expands unfinished none ⟨grown.row, jobs⟩ requeued
            · obtain ⟨new, grown, looks, short⟩ := done
              refine .raised expands unfinished grown looks fun idle => ?_
              rw [trail_eq_nil.mpr idle] at short
              exact absurd short (Nat.not_lt_zero _)

/-- Nothing is ready, and without the rows that are neither completed nor skipped nothing
is either, or a queued row is written. -/
def Reopens (cfg : Config) (host : Host) (run : RunRow) (nodes : List DagNode)
    (existing : List NodeJob) : Prop :=
  findReadyNodes nodes existing = [] ∧ (findReadyNodes nodes (cursor existing) = [] ∨
    Feeds cfg host run nodes (cursor existing))

theorem Requeued.driven_iff (found : db.run? run.id = some run) (going : ¬ run.status.terminal = true)
    (requeued : Requeued cfg host run nodes db after) :
    Driven run.id after ↔ findReadyNodes nodes (cursor (db.jobsOf run.id)) = [] ∨
      Feeds cfg host run nodes (cursor (db.jobsOf run.id)) := by
  cases requeued with
  | raised grown looks rough =>
    rw [QueueWorkflows.driven_iff (grown.row.trans found), grown.live looks, or_iff_right going,
      or_iff_right (not_live_swept run.id db)]
    refine (or_iff_right fun none => ?_).symm
    refine absurd ?_ rough
    rw [Smooth, trail_eq_nil.mpr none]
    exact ⟨.nil, fun _ member => absurd member List.not_mem_nil⟩
  | requeued grown looks some done =>
    obtain ⟨row, stored, runs⟩ := status_updateRun (grown.row.trans found) done
    rw [QueueWorkflows.driven_iff stored, runs, live_updateRun done, grown.live looks,
      or_iff_right (not_live_swept run.id db), or_iff_right some]
    exact or_iff_right (by rintro ⟨⟩)
  | failed grown none done =>
    obtain ⟨row, stored, failed⟩ := status_updateRun (grown.row.trans found) done
    rw [QueueWorkflows.driven_iff stored, failed]
    exact iff_of_true (.inl rfl) (.inl none)

theorem fed_of_ready (unfinished : allSatisfied nodes (db.jobsOf run.id) = false)
    (some : findReadyNodes nodes (db.jobsOf run.id) ≠ []) :
    (allSatisfied nodes (db.jobsOf run.id) = true ∨ Feeds cfg host run nodes (db.jobsOf run.id) ∨
      Reopens cfg host run nodes (db.jobsOf run.id)) ↔
      Feeds cfg host run nodes (db.jobsOf run.id) := by
  rw [unfinished, or_iff_right (by nofun : ¬ false = true)]
  exact or_iff_left fun reopens => some reopens.1

theorem fed_of_blocked (unfinished : allSatisfied nodes (db.jobsOf run.id) = false)
    (none : findReadyNodes nodes (db.jobsOf run.id) = []) :
    (allSatisfied nodes (db.jobsOf run.id) = true ∨ Feeds cfg host run nodes (db.jobsOf run.id) ∨
      Reopens cfg host run nodes (db.jobsOf run.id)) ↔
      findReadyNodes nodes (cursor (db.jobsOf run.id)) = [] ∨
        Feeds cfg host run nodes (cursor (db.jobsOf run.id)) := by
  rw [unfinished, or_iff_right (by nofun : ¬ false = true), Reopens, and_iff_right none]
  exact or_iff_right fun feeds => feeds.ready none

theorem Reconciliation.driven_iff (found : db.run? run.id = some run)
    (reconciled : Reconciliation cfg host run db after) :
    Driven run.id after ↔ run.status.terminal = true ∨ Live run.id db ∨
      ∃ nodes, dagOf cfg run = .ok nodes ∧ (allSatisfied nodes (db.jobsOf run.id) = true ∨
        Feeds cfg host run nodes (db.jobsOf run.id) ∨
        Reopens cfg host run nodes (db.jobsOf run.id)) := by
  cases reconciled with
  | left driven =>
    rw [QueueWorkflows.driven_iff found]
    exact iff_of_true driven (or_assoc.mp (.inl driven))
  | unloaded unreadable =>
    have none : ¬ ∃ nodes, dagOf cfg run = .ok nodes ∧
        (allSatisfied nodes (db.jobsOf run.id) = true ∨
          Feeds cfg host run nodes (db.jobsOf run.id) ∨
          Reopens cfg host run nodes (db.jobsOf run.id)) := by
      rintro ⟨nodes, expands, -⟩
      cases unreadable.symm.trans expands
    rw [QueueWorkflows.driven_iff found, or_iff_left none]
  | finished expands all done =>
    obtain ⟨row, stored, completed⟩ := status_updateRun found done
    rw [QueueWorkflows.driven_iff stored, completed]
    exact iff_of_true (.inl rfl) (.inr (.inr ⟨_, expands, .inl all⟩))
  | raised expands unfinished grown looks some =>
    rw [QueueWorkflows.driven_iff (grown.row.trans found), grown.live looks, only_dag expands,
      fed_of_ready unfinished some]
  | enqueued going expands unfinished grown looks some done =>
    obtain ⟨row, stored, runs⟩ := status_updateRun (grown.row.trans found) done
    rw [QueueWorkflows.driven_iff stored, runs, live_updateRun done, grown.live looks,
      only_dag expands, fed_of_ready unfinished some, or_iff_right going]
    exact or_iff_right nofun
  | blocked going dead expands unfinished none same requeued =>
    rw [requeued.driven_iff (same.1.trans found) going, same.2, or_iff_right going,
      or_iff_right dead, only_dag expands, fed_of_blocked unfinished none]

end Reconcile

/-! ### The three steps -/

section Steps

variable {cfg : Config} {host : Host} {run : RunRow} {nodes : List DagNode} {db : Db} {fuel : Nat}

/-- On a well-formed DAG whose rows are all sound, the callback has what it needs: the
rows it adds leave no node behind. -/
theorem callback_fed (found : db.run? run.id = some run) (bounded : Bounded db)
    (expands : dagOf cfg run = .ok nodes) (dag : WellFormedDag nodes) (some : nodes ≠ [])
    (smooth : Smooth cfg host run nodes (db.jobsOf run.id))
    (sound : ∀ job ∈ db.jobsOf run.id, job.status ≠ .failed ∧ job.status ≠ .cancelled) :
    Live run.id db ∨ Feeds cfg host run nodes (db.jobsOf run.id) ∨
      Smooth cfg host run nodes (db.jobsOf run.id) ∧ Completes cfg run nodes db := by
  by_contra neither
  obtain ⟨dead, starved, incomplete⟩ : ¬ Live run.id db ∧
      ¬ Feeds cfg host run nodes (db.jobsOf run.id) ∧ ¬ Completes cfg run nodes db := by
    tauto
  refine incomplete ⟨some, fun node member => ?_⟩
  have satisfied : ∀ job ∈ db.jobsOf run.id, job.status.satisfied = true := by
    intro job present
    have idle : job.status.live ≠ true := fun live => dead (live_jobsOf.mpr ⟨job, present, live⟩)
    have fine := sound job present
    cases status : job.status <;> simp_all [JobStatus.live, JobStatus.satisfied]
  rcases dagOf_cases cfg run with ⟨error, -, unreadable⟩ | ⟨wf, -, listed⟩
  · cases unreadable.symm.trans expands
  · have listed := listed.symm.trans expands
    have stored : (db.run? run.id).isSome := by rw [found]; rfl
    have fuelled := (Cells.missing_le nodes ((db.jobsOf run.id).map NodeJob.cell)).trans_lt
      (Nat.lt_succ_self nodes.length)
    have writes : (Dispatcher.processReady cfg host [] wf run (nodes.length + 1)).Solo
        (Writes run db
          (placedRows cfg host run (db.jobsOf run.id) [] (trail cfg run nodes (db.jobsOf run.id)))
          (trail cfg run nodes (db.jobsOf run.id)).length id) db :=
      solo_expansion listed stored bounded (Nat.lt_succ_self nodes.length)
    obtain ⟨outcome, -, ⟨new, grown, looks, ends⟩, settles⟩ :=
      Transaction.Prog.solo_iff.mp (writes.both (solo_processReady listed fuelled))
    cases outcome with
    | error error => exact absurd (smooth_iff.mp smooth) ends.ne
    | ok inserted =>
      obtain ⟨cells, ⟨-, added, rows, shows⟩, settled⟩ := settles
      obtain rfl : added = new := List.append_cancel_left (rows.symm.trans grown.jobsOf)
      have none : findReadyNodes nodes (db.jobsOf run.id ++ added) = [] := by
        rw [Cells.ready_eq, List.map_append, shows]
        exact settled.exhausted
      have skipped : ∀ job ∈ added, job.status = .skipped := skipped_of_starved looks starved
      rcases full_or_blocked dag.named dag.acyclic none with full | ⟨job, present, blocked⟩
      · obtain ⟨job, present, named⟩ := full node member
        rcases List.mem_append.mp present with old | new
        · obtain ⟨stored, mine⟩ := Db.mem_jobsOf.mp old
          exact .inl ⟨job, stored, mine, named, satisfied job old⟩
        · have listed : job.nodeId ∈ (placedRows cfg host run (db.jobsOf run.id) []
              (trail cfg run nodes (db.jobsOf run.id))).map Prod.fst := by
            rw [← looks, List.map_map]
            exact List.mem_map_of_mem new
          obtain ⟨other, reached, same⟩ := List.mem_map.mp (placedRows_names.subset listed)
          exact .inr ⟨other, reached, same.trans named⟩
      · rcases List.mem_append.mp present with old | new
        · rw [satisfied job old] at blocked
          cases blocked
        · rw [skipped job new] at blocked
          cases blocked

/-- **Which expanding steps leave no phantom.** For the tick, for the callback of a
completed node and for the reconciler, each alone: there is a live row already, or the
step writes a queued one, or it ends the run. -/
theorem expansion_leaves_no_phantom (found : db.run? run.id = some run) (bounded : Bounded db)
    (started : 0 < fuel) (enough : ∀ nodes, dagOf cfg run = .ok nodes → nodes.length < fuel) :
    (run.status = .queued → ∀ stale, ∃ after,
      ((NodePool.expandRun cfg host fuel stale run.id).handle fun _ => pure ()).run db =
        (some (.ok ()), after) ∧
      (¬ Phantom run.id after ↔ Pending run.id db ∨ Live run.id db ∨ Rejects cfg run ∨
        ∃ nodes, dagOf cfg run = .ok nodes ∧ Feeds cfg host run nodes (db.jobsOf run.id))) ∧
    (∀ nodeId, isPatch db run.id nodeId = false → ∃ outcome after,
      (Dispatcher.onNodeCompleted cfg host run.id nodeId fuel).run db = (some outcome, after) ∧
      (¬ Phantom run.id after ↔ run.status.terminal = true ∨ Pending run.id db ∨
        Live run.id db ∨ ∃ nodes, dagOf cfg run = .ok nodes ∧
          (Feeds cfg host run nodes (db.jobsOf run.id) ∨
            Smooth cfg host run nodes (db.jobsOf run.id) ∧ Completes cfg run nodes db))) ∧
    (∃ outcome after,
      (Dispatcher.reconcileRun cfg host run.id fuel).run db = (some outcome, after) ∧
      (Driven run.id after ↔ run.status.terminal = true ∨ Live run.id db ∨
        ∃ nodes, dagOf cfg run = .ok nodes ∧ (allSatisfied nodes (db.jobsOf run.id) = true ∨
          Feeds cfg host run nodes (db.jobsOf run.id) ∨
          Reopens cfg host run nodes (db.jobsOf run.id)))) ∧
    ∀ nodes, dagOf cfg run = .ok nodes → WellFormedDag nodes → nodes ≠ [] →
      Smooth cfg host run nodes (db.jobsOf run.id) →
      (∀ job ∈ db.jobsOf run.id, job.status ≠ .failed ∧ job.status ≠ .cancelled) →
      Live run.id db ∨ Feeds cfg host run nodes (db.jobsOf run.id) ∨
        Smooth cfg host run nodes (db.jobsOf run.id) ∧ Completes cfg run nodes db := by
  refine ⟨fun queued stale => ?_, fun nodeId plain => ?_, ?_, ?_⟩
  · obtain ⟨outcome, ends, rfl, turned⟩ :=
      Transaction.Prog.solo_iff.mp (solo_expandRun found bounded enough)
    exact ⟨_, Prod.ext ends rfl, turned.phantom_iff found queued⟩
  · obtain ⟨outcome, ends, called⟩ :=
      Transaction.Prog.solo_iff.mp (solo_called found bounded started enough plain)
    exact ⟨outcome, _, Prod.ext ends rfl, called.phantom_iff found⟩
  · obtain ⟨outcome, ends, reconciled⟩ :=
      Transaction.Prog.solo_iff.mp (solo_reconcileRun found bounded enough)
    exact ⟨outcome, _, Prod.ext ends rfl, reconciled.driven_iff found⟩
  · exact fun nodes expands dag some smooth sound =>
      callback_fed found bounded expands dag some smooth sound

end Steps

/-! ### Samples -/

/-- The sample's run is fed by its first tick, and was never a phantom. -/
theorem inserted_run_fed : ∃ run after, run.id = "r" ∧ Sample.inserted.run? run.id = some run ∧
    ((NodePool.expandRun Sample.config Sample.host 4 [] run.id).handle fun _ => pure ()).run
      Sample.inserted = (some (.ok ()), after) ∧
    (¬ Phantom run.id after ↔ Pending run.id Sample.inserted ∨ Live run.id Sample.inserted ∨
      Rejects Sample.config run ∨ ∃ nodes, dagOf Sample.config run = .ok nodes ∧
        Feeds Sample.config Sample.host run nodes (Sample.inserted.jobsOf run.id)) := by
  have queued : (Sample.inserted.run? "r").map RunRow.status = some .queued := by decide +kernel
  obtain ⟨run, found, waits⟩ := Option.map_eq_some_iff.mp queued
  obtain ⟨stored, named⟩ := Db.run?_mem found
  have found : Sample.inserted.run? run.id = some run := named.symm ▸ found
  obtain ⟨after, ends, fed⟩ := (@expansion_leaves_no_phantom Sample.config Sample.host run
    Sample.inserted 4 found (by unfold Bounded; decide +kernel) (by decide)
    (Sample.dag_length (by decide +kernel) run stored)).1 waits []
  exact ⟨run, after, named, found, ends, fed⟩

/-- The only node of the workflow is skipped. -/
def Sample.skipping : Config :=
  { Sample.config with
    workflowLoader := fun _ => .ok { steps := [
      { id := "only", kind := .pipeline, pipeline := "one", skipIf := some (.bool true) }] } }

/-- The tick, and likewise the reconciler, write the one skipped row and set the run to
`running`, with nothing left to run. -/
theorem skipped_run_left :
    (dagOf Sample.skipping Sample.run).toOption.map (List.map fun node =>
      (node.id, node.dependsOn)) = some [("only/n", [])] ∧
    Phantom "r" (((NodePool.expandRun Sample.skipping Sample.host 4 [] "r").handle
      fun _ => pure ()).run Sample.inserted).2 ∧
    ¬ Driven "r" ((Dispatcher.reconcileRun Sample.skipping Sample.host "r" 4).run
      Sample.inserted).2 := by
  have dead (db : Db) (status : (db.run? "r").map RunRow.status = some .running)
      (events : db.events.length = 0) (rows : (db.jobsOf "r").map NodeJob.status = [.skipped]) :
      Phantom "r" db ∧ ¬ Driven "r" db := by
    obtain ⟨run, found, running⟩ := Option.map_eq_some_iff.mp status
    have idle : ¬ Live "r" db := by
      rw [live_jobsOf]
      rintro ⟨job, present, live⟩
      have listed := rows ▸ List.mem_map_of_mem (f := NodeJob.status) present
      rw [List.mem_singleton.mp listed] at live
      cases live
    refine ⟨⟨⟨run, found, by rw [running]; rfl⟩, ?_, idle⟩, fun driven => ?_⟩
    · rintro ⟨event, present, -⟩
      rw [List.length_eq_zero_iff.mp events] at present
      exact List.not_mem_nil present
    · rcases driven run found with ended | live
      · rw [running] at ended
        cases ended
      · exact idle live
  refine ⟨by decide +kernel, (dead _ ?_ ?_ ?_).1, (dead _ ?_ ?_ ?_).2⟩
  all_goals decide +kernel

end QueueWorkflows
