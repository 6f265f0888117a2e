import QueueWorkflows.Engine.Cascade

/-! The work-list of the tick: which of the queued runs it has selected are queued no
longer once it has been through them. -/

namespace QueueWorkflows

open Transaction (Prog)
open Transaction.Prog (Solo commit ofExcept)
open Dispatcher (dagOf findReadyNodes gpuOffenders)

/-! ### One turn -/

/-- `start_run` rejects the run: its workflow loads, and its DAG has a GPU node without a
model, or the listing of its nodes raises a `ValueError`. -/
def Rejects (cfg : Config) (run : RunRow) : Prop :=
  ∃ wf, cfg.workflowLoader run.workflowName = .ok wf ∧
    match Dispatcher.nodesOf cfg wf run with
    | .ok nodes => gpuOffenders cfg nodes ≠ []
    | .error error => error.kind.isValueError = true

theorem rejects_iff {cfg : Config} {run : RunRow} {wf : Workflow}
    (loaded : cfg.workflowLoader run.workflowName = .ok wf) :
    Rejects cfg run ↔ ∃ error, Dispatcher.assertGpuNodesDeclareModel cfg wf run = .error error ∧
      error.kind.isValueError = true := by
  have one : Rejects cfg run ↔ (match Dispatcher.nodesOf cfg wf run with
      | .ok nodes => gpuOffenders cfg nodes ≠ []
      | .error error => error.kind.isValueError = true) := by
    constructor
    · rintro ⟨other, same, rejected⟩
      cases loaded.symm.trans same
      exact rejected
    · exact fun rejected => ⟨wf, loaded, rejected⟩
  rw [one]
  unfold Dispatcher.assertGpuNodesDeclareModel
  cases Dispatcher.nodesOf cfg wf run with
  | error error => simp [bind, Except.bind]
  | ok nodes =>
    dsimp only [bind, Except.bind]
    cases gpuOffenders cfg nodes <;> simp [ErrKind.isValueError]

theorem Rejects.offends {cfg : Config} {run : RunRow} {nodes : List DagNode}
    (rejects : Rejects cfg run) (expands : dagOf cfg run = .ok nodes) :
    gpuOffenders cfg nodes ≠ [] := by
  obtain ⟨wf, loaded, rejected⟩ := rejects
  unfold dagOf at expands
  rw [loaded] at expands
  have listed : Dispatcher.nodesOf cfg wf run = .ok nodes := expands
  rw [listed] at rejected
  exact rejected

/-- What a turn of the expansion loop makes of the run it is about. -/
inductive Turned (cfg : Config) (host : Host) (run : RunRow) (db : Db) : Db → Prop
  | unloaded {error : PyErr} (unreadable : dagOf cfg run = .error error)
      (spared : ¬ Rejects cfg run) : Turned cfg host run db db
  | rejected {finished : Option Time} {error : Option String} {after : Db}
      (rejects : Rejects cfg run)
      (done : RunStore.updateRun run.id
        { status := .failed, finishedAt := finished, error := error } db = .ok ((), after)) :
      Turned cfg host run db after
  | started {nodes : List DagNode} {new : List NodeJob} {middle after : Db}
      (expands : dagOf cfg run = .ok nodes) (accepted : gpuOffenders cfg nodes = [])
      (grown : Grown run.id db middle new)
      (looks : new.map (fun job => (job.nodeId, job.status)) =
        placedRows cfg host run (db.jobsOf run.id) [] (trail cfg run nodes (db.jobsOf run.id)))
      (some : findReadyNodes nodes (db.jobsOf run.id) ≠ [])
      (smooth : Smooth cfg host run nodes (db.jobsOf run.id))
      (done : RunStore.updateRun run.id { status := .running } middle = .ok ((), after)) :
      Turned cfg host run db after
  | waiting {nodes : List DagNode} {new : List NodeJob} {after : Db}
      (expands : dagOf cfg run = .ok nodes) (accepted : gpuOffenders cfg nodes = [])
      (grown : Grown run.id db after new)
      (looks : new.map (fun job => (job.nodeId, job.status)) =
        placedRows cfg host run (db.jobsOf run.id) [] (trail cfg run nodes (db.jobsOf run.id)))
      (idle : findReadyNodes nodes (db.jobsOf run.id) = [] ∨
        ¬ Smooth cfg host run nodes (db.jobsOf run.id)) : Turned cfg host run db after

section Turn

variable {cfg : Config} {host : Host} {run : RunRow} {stale : List String} {db : Db} {fuel : Nat}

/-- An error that the assertion lets through is one of the listing. -/
theorem dagOf_of_asserted {wf : Workflow} {error : PyErr}
    (loaded : cfg.workflowLoader run.workflowName = .ok wf)
    (asserted : Dispatcher.assertGpuNodesDeclareModel cfg wf run = .error error)
    (escapes : ¬ error.kind.isValueError = true) : dagOf cfg run = .error error := by
  unfold Dispatcher.assertGpuNodesDeclareModel at asserted
  unfold dagOf
  rw [loaded]
  cases listed : Dispatcher.nodesOf cfg wf run with
  | error raised =>
    rw [listed] at asserted
    have same : raised = error := Except.error.inj asserted
    exact same ▸ listed
  | ok nodes =>
    rw [listed] at asserted
    dsimp only [bind, Except.bind] at asserted
    split at asserted
    · cases asserted
    · cases asserted
      exact absurd rfl escapes

theorem solo_startRun (found : db.run? run.id = some run) (bounded : Bounded db)
    (enough : ∀ nodes, dagOf cfg run = .ok nodes → nodes.length < fuel) :
    (Dispatcher.startRun cfg host stale run.id fuel).Solo (fun outcome after =>
      (¬ Rejects cfg run ∧
        ∃ error raised, dagOf cfg run = .error error ∧ outcome = .error raised ∧ after = db) ∨
      (Rejects cfg run ∧ outcome = .ok 0 ∧ ∃ finished error,
        RunStore.updateRun run.id { status := .failed, finishedAt := finished, error := error }
          db = .ok ((), after)) ∨
      ∃ nodes, dagOf cfg run = .ok nodes ∧ gpuOffenders cfg nodes = [] ∧ Writes run db
        (placedRows cfg host run (db.jobsOf run.id) [] (trail cfg run nodes (db.jobsOf run.id)))
        (trail cfg run nodes (db.jobsOf run.id)).length id outcome after) db := by
  unfold Dispatcher.startRun
  refine solo_getRun ?_
  rw [found]
  simp only
  cases loaded : cfg.workflowLoader run.workflowName with
  | error error =>
    have unreadable : dagOf cfg run = .error error := by
      unfold dagOf
      rw [loaded]
      rfl
    refine .inl ⟨?_, error, error, unreadable, rfl, rfl⟩
    rintro ⟨wf, loads, -⟩
    cases loaded.symm.trans loads
  | ok wf =>
    simp only [Prog.ofExcept_ok, Prog.bind_pure']
    cases asserted : Dispatcher.assertGpuNodesDeclareModel cfg wf run with
    | ok _ =>
      obtain ⟨nodes, listed, accepted⟩ :=
        (Dispatcher.assertGpuNodesDeclareModel_ok cfg).mp asserted
      have expands := dagOf_of_loaded loaded listed
      have stored : (db.run? run.id).isSome := by rw [found]; rfl
      refine (solo_expansion listed stored bounded (enough nodes expands)).weaken ?_
      exact fun outcome after writes => .inr (.inr ⟨nodes, expands, accepted, writes⟩)
    | error error =>
      dsimp only
      split
      · rename_i caught
        exact .inr (.inl ⟨(rejects_iff loaded).mpr ⟨error, asserted, caught⟩, rfl, _, _, rfl⟩)
      · rename_i escapes
        refine .inl ⟨fun rejects => ?_, error, error, ?_, rfl, rfl⟩
        · obtain ⟨other, same, caught⟩ := (rejects_iff loaded).mp rejects
          cases asserted.symm.trans same
          exact escapes caught
        · exact dagOf_of_asserted loaded asserted escapes

theorem solo_expandRun (found : db.run? run.id = some run) (bounded : Bounded db)
    (enough : ∀ nodes, dagOf cfg run = .ok nodes → nodes.length < fuel) :
    ((NodePool.expandRun cfg host fuel stale run.id).handle fun _ => pure ()).Solo
      (fun outcome after => outcome = .ok () ∧ Turned cfg host run db after) db := by
  have turns : (NodePool.expandRun cfg host fuel stale run.id).Solo
      (fun _ after => Turned cfg host run db after) db := by
    unfold NodePool.expandRun
    refine (solo_startRun found bounded enough).bind (fun inserted middle done => ?_) ?_
    · rcases done with ⟨-, _, _, -, clash, -⟩ | ⟨rejects, none, _, _, failed⟩ |
        ⟨nodes, expands, accepted, new, grown, looks, full, counted⟩
      · cases clash
      · cases none
        exact .rejected rejects failed
      · have smooth := smooth_iff.mpr full
        simp only [id] at counted
        split
        · rename_i some
          refine .started expands accepted grown looks (fun none => ?_) smooth rfl
          rw [counted, trail_eq_nil.mpr none] at some
          exact absurd some (Nat.lt_irrefl 0)
        · rename_i zero
          have empty : trail cfg run nodes (db.jobsOf run.id) = [] :=
            List.length_eq_zero_iff.mp (by omega)
          exact .waiting expands accepted grown looks (.inl (trail_eq_nil.mp empty))
    · rintro error after (⟨spared, _, _, unreadable, -, rfl⟩ | ⟨-, clash, -⟩ |
        ⟨nodes, expands, accepted, new, grown, looks, short⟩)
      · exact .unloaded unreadable spared
      · cases clash
      · refine .waiting expands accepted grown looks (.inr fun smooth => ?_)
        exact short.ne (smooth_iff.mp smooth)
  refine turns.handle (fun _ _ turned => ⟨rfl, turned⟩) fun _ _ turned => ⟨rfl, turned⟩

theorem run?_updateRun {runId other : String} {fields : RunStore.RunUpdate} {after : Db}
    (done : RunStore.updateRun runId fields db = .ok ((), after)) :
    after.run? other = (db.run? other).map fun row => if row.id == runId then { row with
      status := fields.status, finishedAt := fields.finishedAt.or row.finishedAt
      error := fields.error.or row.error } else row := by
  cases done
  exact Db.run?_update

theorem jobs_updateRun {runId : String} {fields : RunStore.RunUpdate} {after : Db}
    (done : RunStore.updateRun runId fields db = .ok ((), after)) : after.jobs = db.jobs := by
  cases done
  rfl

theorem bounded_updateRun {runId : String} {fields : RunStore.RunUpdate} {after : Db}
    (done : RunStore.updateRun runId fields db = .ok ((), after)) (bounded : Bounded db) :
    Bounded after := by
  cases done
  exact bounded

theorem Grown.elsewhere {runId other : String} {after : Db} {new : List NodeJob}
    (grown : Grown runId db after new) (apart : other ≠ runId) :
    after.jobsOf other = db.jobsOf other := by
  unfold Db.jobsOf
  rw [grown.rows, List.filter_append, List.append_right_eq_self, List.filter_eq_nil_iff]
  intro job present same
  exact apart ((beq_iff_eq.mp same).symm.trans (grown.mine job present))

theorem elsewhere_updateRun {runId other : String} {fields : RunStore.RunUpdate} {after : Db}
    (done : RunStore.updateRun runId fields db = .ok ((), after)) (apart : other ≠ runId) :
    after.run? other = db.run? other ∧ after.jobsOf other = db.jobsOf other := by
  refine ⟨?_, by rw [Db.jobsOf, jobs_updateRun done, Db.jobsOf]⟩
  rw [run?_updateRun done]
  cases found : db.run? other with
  | none => rfl
  | some row =>
    have named : row.id ≠ runId := (Db.run?_mem found).2 ▸ apart
    simp [named]

/-- A turn is about its own run. -/
theorem Turned.elsewhere {other : String} {after : Db} (turned : Turned cfg host run db after)
    (apart : other ≠ run.id) :
    after.run? other = db.run? other ∧ after.jobsOf other = db.jobsOf other := by
  cases turned with
  | unloaded => exact ⟨rfl, rfl⟩
  | rejected _ done => exact elsewhere_updateRun done apart
  | started _ _ grown _ _ _ done =>
    obtain ⟨row, jobs⟩ := elsewhere_updateRun done apart
    refine ⟨row.trans ?_, jobs.trans (grown.elsewhere apart)⟩
    rw [Db.run?, grown.runs, Db.run?]
  | waiting _ _ grown =>
    refine ⟨?_, grown.elsewhere apart⟩
    rw [Db.run?, grown.runs, Db.run?]

theorem Turned.bounded {after : Db} (turned : Turned cfg host run db after)
    (bounded : Bounded db) : Bounded after := by
  cases turned with
  | unloaded => exact bounded
  | rejected _ done => exact bounded_updateRun done bounded
  | started _ _ grown _ _ _ done => exact bounded_updateRun done grown.bounded
  | waiting _ _ grown => exact grown.bounded

/-- The run is rejected, or some node is ready and nothing that the expansion comes to
raises. -/
def Expandable (cfg : Config) (host : Host) (runId : String) (db : Db) : Prop :=
  ∃ run, db.run? runId = some run ∧ (Rejects cfg run ∨
    ∃ nodes, dagOf cfg run = .ok nodes ∧ findReadyNodes nodes (db.jobsOf runId) ≠ [] ∧
      Smooth cfg host run nodes (db.jobsOf runId))

/-- The run is queued as it was. -/
def StillWaiting (runId : String) (db after : Db) : Prop :=
  ∃ old new, db.run? runId = some old ∧ after.run? runId = some new ∧ new.status = .queued ∧
    new.queuedAt = old.queuedAt ∧ new.priority = old.priority

theorem Expandable.congr {runId : String} {after : Db} (row : after.run? runId = db.run? runId)
    (jobs : after.jobsOf runId = db.jobsOf runId) :
    Expandable cfg host runId after ↔ Expandable cfg host runId db := by
  unfold Expandable
  rw [row, jobs]

/-- What has become of the run: it is queued no longer if it could be expanded, and
otherwise it is queued as it was. -/
def Fated (cfg : Config) (host : Host) (runId : String) (db after : Db) : Prop :=
  ∃ old new, db.run? runId = some old ∧ after.run? runId = some new ∧
    new.queuedAt = old.queuedAt ∧ new.priority = old.priority ∧
    (new.status = .queued ↔ ¬ Expandable cfg host runId db)

theorem Turned.fated {after : Db} (found : db.run? run.id = some run)
    (queued : run.status = .queued) (turned : Turned cfg host run db after) :
    Fated cfg host run.id db after := by
  have left {middle final : Db} {fields : RunStore.RunUpdate}
      (row : middle.run? run.id = some run)
      (done : RunStore.updateRun run.id fields middle = .ok ((), final))
      (moved : fields.status ≠ .queued) (able : Expandable cfg host run.id db) :
      Fated cfg host run.id db final := by
    have stored : final.run? run.id = _ := run?_updateRun done
    rw [row, Option.map_some, beq_self_eq_true, if_pos rfl] at stored
    exact ⟨run, _, found, stored, rfl, rfl, iff_of_false moved (not_not.mpr able)⟩
  cases turned with
  | unloaded unreadable spared =>
    refine ⟨run, run, found, found, rfl, rfl, iff_of_true queued ?_⟩
    rintro ⟨row, same, rejects | ⟨nodes, expands, -⟩⟩
    · cases found.symm.trans same
      exact spared rejects
    · cases found.symm.trans same
      cases unreadable.symm.trans expands
  | rejected rejects done => exact left found done nofun ⟨run, found, .inl rejects⟩
  | started expands accepted grown looks some smooth done =>
    refine left ?_ done nofun ⟨run, found, .inr ⟨_, expands, some, smooth⟩⟩
    rw [Db.run?, grown.runs]
    exact found
  | waiting expands accepted grown looks idle =>
    refine ⟨run, run, found, ?_, rfl, rfl, iff_of_true queued ?_⟩
    · rw [Db.run?, grown.runs]
      exact found
    · rintro ⟨row, stored, rejects | ⟨nodes, same, some, smooth⟩⟩
      · cases found.symm.trans stored
        exact rejects.offends expands accepted
      · cases found.symm.trans stored
        cases expands.symm.trans same
        exact idle.elim some fun rough => rough smooth

theorem Fated.congr {runId : String} {middle after : Db} (fated : Fated cfg host runId middle after)
    (row : middle.run? runId = db.run? runId) (jobs : middle.jobsOf runId = db.jobsOf runId) :
    Fated cfg host runId db after := by
  obtain ⟨old, new, before, behind, queuedAt, priority, queued⟩ := fated
  rw [Expandable.congr row jobs] at queued
  exact ⟨old, new, row ▸ before, behind, queuedAt, priority, queued⟩

theorem Fated.stillWaiting {runId : String} {after : Db} (fated : Fated cfg host runId db after) :
    StillWaiting runId db after ↔ ¬ Expandable cfg host runId db := by
  obtain ⟨old, new, before, behind, queuedAt, priority, queued⟩ := fated
  rw [← queued]
  constructor
  · rintro ⟨first, last, -, stored, still, -⟩
    cases behind.symm.trans stored
    exact still
  · exact fun still => ⟨old, new, before, behind, still, queuedAt, priority⟩

end Turn

/-! ### A tick -/

section Tick

variable {cfg : Config} {host : Host} {db after : Db} {fuel : Nat} {runIds : List String}

/-- What a selection of runs has been through, each in its turn. -/
theorem solo_expandRuns (distinct : runIds.Nodup) (bounded : Bounded db)
    (queued : ∀ runId ∈ runIds, ∃ run, db.run? runId = some run ∧ run.status = .queued)
    (enough : ∀ runId ∈ runIds, ∀ run, db.run? runId = some run →
      ∀ nodes, dagOf cfg run = .ok nodes → nodes.length < fuel) :
    (NodePool.expandRuns cfg host fuel runIds).Solo (fun outcome after => outcome = .ok () ∧
      (∀ runId ∉ runIds, after.run? runId = db.run? runId) ∧
      ∀ runId ∈ runIds, Fated cfg host runId db after) db := by
  induction runIds generalizing db with
  | nil => exact ⟨rfl, fun _ _ => rfl, fun _ member => absurd member List.not_mem_nil⟩
  | cons runId rest ih =>
    obtain ⟨run, found, waits⟩ := queued runId List.mem_cons_self
    obtain ⟨-, rfl⟩ := Db.run?_mem found
    rw [List.nodup_cons] at distinct
    unfold NodePool.expandRuns
    refine (solo_expandRun found bounded (enough run.id List.mem_cons_self run found)).bind
      (fun _ middle turned => ?_) fun error middle turned => absurd turned.1 (by nofun)
    obtain ⟨-, turned⟩ := turned
    have apart : ∀ other ∈ rest, middle.run? other = db.run? other ∧
        middle.jobsOf other = db.jobsOf other := fun other member =>
      turned.elsewhere fun same => distinct.1 (same ▸ member)
    refine (ih distinct.2 (turned.bounded bounded) (fun other member => ?_)
      fun other member row stored => ?_).weaken fun outcome after done => ?_
    · rw [(apart other member).1]
      exact queued other (List.mem_cons_of_mem _ member)
    · rw [(apart other member).1] at stored
      exact enough other (List.mem_cons_of_mem _ member) row stored
    · obtain ⟨ends, others, mine⟩ := done
      refine ⟨ends, fun other outside => ?_, fun other member => ?_⟩
      · rw [List.mem_cons, not_or] at outside
        rw [others other outside.2, (turned.elsewhere outside.1).1]
      · rcases List.mem_cons.mp member with rfl | later
        · obtain ⟨old, new, before, behind, rest⟩ := turned.fated found waits
          exact ⟨old, new, before, (others run.id distinct.1).trans behind, rest⟩
        · exact (mine other later).congr (apart other later).1 (apart other later).2

/-- A selected run is a stored one, queued, and selected once. -/
theorem listQueuedNodeRunIds_spec (project : String) (limit : Nat) (db : Db) :
    (RunStore.listQueuedNodeRunIds project limit db).Nodup ∧
      ∀ runId ∈ RunStore.listQueuedNodeRunIds project limit db,
        ∃ run, db.run? runId = some run ∧ run.status = .queued := by
  unfold RunStore.listQueuedNodeRunIds
  constructor
  · have keyed : (db.runs.rows.map RunRow.id).Nodup := List.pairwise_map.mpr
      (List.pairwise_map.mp db.runs.unique)
    refine List.Nodup.sublist ((List.take_sublist _ _).map _) ?_
    refine ((List.perm_insertionSort _ _).map RunRow.id).nodup_iff.mpr ?_
    exact keyed.sublist (List.filter_sublist.map _)
  · intro runId member
    obtain ⟨run, listed, rfl⟩ := List.mem_map.mp member
    have inside := (List.mem_insertionSort _).mp (List.mem_of_mem_take listed)
    obtain ⟨stored, selected⟩ := List.mem_filter.mp inside
    simp only [Bool.and_eq_true, beq_iff_eq] at selected
    exact ⟨run, Db.run?_of_mem stored, selected.1.2⟩

/-- **What a tick gets off its work-list.** A run it has selected waits on as it did if
and only if its workflow cannot be expanded, or is not rejected and has no node ready, or
something raises that its expansion comes to. No other run is selected a second time. -/
theorem tick_clears_expandable (bounded : Bounded db)
    (enough : ∀ run ∈ db.runs.rows, ∀ nodes, dagOf cfg run = .ok nodes → nodes.length < fuel) :
    ∃ after, (NodePool.expandRuns cfg host fuel
        (RunStore.listQueuedNodeRunIds cfg.project 50 db)).run db = (some (.ok ()), after) ∧
      ∀ runId ∈ RunStore.listQueuedNodeRunIds cfg.project 50 db,
        (¬ StillWaiting runId db after ↔ Expandable cfg host runId db) ∧
        (Expandable cfg host runId db →
          runId ∉ RunStore.listQueuedNodeRunIds cfg.project 50 after) := by
  obtain ⟨distinct, queued⟩ := listQueuedNodeRunIds_spec cfg.project 50 db
  have went : (NodePool.expandRuns cfg host fuel
      (RunStore.listQueuedNodeRunIds cfg.project 50 db)).Solo _ db :=
    solo_expandRuns distinct bounded queued fun runId _ run found =>
      enough run (Db.run?_mem found).1
  obtain ⟨outcome, ends, rfl, -, each⟩ := Transaction.Prog.solo_iff.mp went
  refine ⟨_, Prod.ext ends rfl, fun runId member => ⟨?_, fun expandable again => ?_⟩⟩
  · exact not_iff_comm.mp (each runId member).stillWaiting.symm
  · obtain ⟨old, new, -, stored, -, -, still⟩ := each runId member
    obtain ⟨row, found, waits⟩ := (listQueuedNodeRunIds_spec cfg.project 50 _).2 runId again
    cases stored.symm.trans found
    exact still.mp waits expandable

end Tick

/-! ### Samples -/

theorem Sample.dag_length {db : Db} {fuel : Nat}
    (short : ∀ run ∈ db.runs.rows, ((dagOf Sample.config run).toOption.all fun nodes =>
      nodes.length < fuel) = true) :
    ∀ run ∈ db.runs.rows, ∀ nodes, dagOf Sample.config run = .ok nodes → nodes.length < fuel := by
  intro run stored nodes expands
  have checked := short run stored
  rw [expands] at checked
  exact of_decide_eq_true checked

/-- The run of the sample is inserted, and no row of it. -/
def Sample.inserted : Db := (Sample.after [.insertRun Sample.run]).store

/-- The run is expanded, and put back by a restart of its orchestrator. -/
def Sample.putBack : Db :=
  (Sample.after (Sample.expanded ++ [.clock 1, .reenqueueRuns])).store

theorem inserted_run_leaves : ∃ after, (NodePool.expandRuns Sample.config Sample.host 4
      (RunStore.listQueuedNodeRunIds Sample.config.project 50 Sample.inserted)).run
        Sample.inserted = (some (.ok ()), after) ∧
    "r" ∈ RunStore.listQueuedNodeRunIds Sample.config.project 50 Sample.inserted ∧
    (¬ StillWaiting "r" Sample.inserted after ↔
      Expandable Sample.config Sample.host "r" Sample.inserted) := by
  obtain ⟨after, ends, each⟩ := @tick_clears_expandable Sample.config Sample.host Sample.inserted 4
    (by unfold Bounded; decide +kernel) (Sample.dag_length (by decide +kernel))
  have selected : "r" ∈ RunStore.listQueuedNodeRunIds Sample.config.project 50 Sample.inserted := by
    decide +kernel
  exact ⟨after, ends, selected, (each "r" selected).1⟩

/-- Both rows of the resumed run have survived. Its turn adds none, and it stays where it
was, at the front of the list. -/
theorem resumed_run_stays : ¬ ∀ runId ∈ RunStore.listQueuedNodeRunIds Sample.config.project 50
      Sample.putBack, ¬ StillWaiting runId Sample.putBack
        ((NodePool.expandRuns Sample.config Sample.host 4
          (RunStore.listQueuedNodeRunIds Sample.config.project 50 Sample.putBack)).run
            Sample.putBack).2 := by
  intro cleared
  have looks (db : Db) (same : (db.run? "r").map (fun run =>
      (run.status, run.queuedAt, run.priority)) = some (.queued, some 1, 10)) :
      ∃ run, db.run? "r" = some run ∧ run.status = .queued ∧ run.queuedAt = some 1 ∧
        run.priority = 10 := by
    obtain ⟨run, found, seen⟩ := Option.map_eq_some_iff.mp same
    simp only [Prod.mk.injEq] at seen
    exact ⟨run, found, seen⟩
  obtain ⟨old, before, -, queuedAt, priority⟩ := looks Sample.putBack (by decide +kernel)
  refine cleared "r" (by decide +kernel) ?_
  obtain ⟨new, behind, still, queuedAt', priority'⟩ := looks
    ((NodePool.expandRuns Sample.config Sample.host 4
      (RunStore.listQueuedNodeRunIds Sample.config.project 50 Sample.putBack)).run
        Sample.putBack).2 (by decide +kernel)
  exact ⟨old, new, before, behind, still, queuedAt'.trans queuedAt.symm,
    priority'.trans priority.symm⟩

end QueueWorkflows
