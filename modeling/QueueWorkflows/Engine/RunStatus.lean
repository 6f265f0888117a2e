import QueueWorkflows.Base.Absorption
import QueueWorkflows.Engine.Outbox

/-! The run status under cancellation and failure. `update_run` has no guard, so a
path that read a run while it was live may write its status after the run was
cancelled or failed; everywhere else a halted run stays halted. -/

namespace QueueWorkflows

open Transaction (Prog Pool Reach follow)
open Transaction.Prog (Always Calm Respects Marked Keeps commit ofExcept)

/-- The run is `cancelled` or `failed`. -/
def Halted (runId : String) (db : Db) : Prop :=
  (db.run? runId).any (fun run => run.status.halted) = true

instance (runId : String) (db : Db) : Decidable (Halted runId db) :=
  inferInstanceAs (Decidable (_ = true))

abbrev StaysHalted (runId : String) (before after : Db) : Prop :=
  Halted runId before → Halted runId after

/-- The path holds a reading of the run that it may yet act on. -/
abbrev Stale (runId : String) (site : Site) : Prop :=
  runId ∈ site.stale

section Statements

variable {runId other : String} {db after : Db}

theorem staysHalted_update {selects : RunRow → Bool} {change : RunRow → RunRow}
    {keeps : ∀ run, (change run).id = run.id}
    (halts : ∀ run, run.id = runId → run.status.halted = true → selects run = true →
      (change run).status.halted = true) :
    StaysHalted runId db { db with runs := db.runs.update selects change keeps } := by
  intro halted
  obtain ⟨run, found, status⟩ := (Option.any_eq_true _ _).mp halted
  unfold Halted
  rw [Db.run?_update, found, Option.map_some, Option.any_some]
  split
  · exact halts run (Db.run?_mem found).2 status (by assumption)
  · exact status

theorem staysHalted_updateRun {fields : RunStore.RunUpdate}
    (harmless : fields.status.halted = true ∨ other ≠ runId)
    (done : RunStore.updateRun other fields db = .ok ((), after)) : StaysHalted runId db after := by
  cases done
  refine staysHalted_update fun run named _ selected => ?_
  rcases harmless with halts | different
  · exact halts
  · exact absurd ((beq_iff_eq.mp selected).symm.trans named) different

theorem halted_frame (runId : String) : Frame (· ≠ runId) (StaysHalted runId) where
  refl _ := id
  update _ _ _ _ _ := id
  insert _ _ _ _ _ := id
  delete _ _ := id
  submissions _ _ := id
  updateRun _ different _ _ _ done := staysHalted_updateRun (.inr different) done

theorem staysHalted_bookkept (kept : Bookkept db after) : StaysHalted runId db after := by
  intro halted
  obtain ⟨run, found, status⟩ := (Option.any_eq_true _ _).mp halted
  obtain ⟨member, named⟩ := Db.run?_mem found
  obtain ⟨now, present, poisoned⟩ := kept.present run member
  have here : after.run? runId = some now := by
    rw [← named, ← poisoned.same.id]
    exact Db.run?_of_mem present
  unfold Halted
  rw [here, Option.any_some]
  rcases poisoned with rfl | ⟨-, -, failed⟩
  · exact status
  · rw [failed]
    rfl

theorem Statement.staysHalted {cfg : Config} (statement : Statement cfg db after) :
    StaysHalted runId db after := by
  cases statement with
  | insertRun run done =>
    simp only [QueueWorkflows.insertRun] at done
    split at done
    · rename_i runs inserted
      cases done
      intro halted
      obtain ⟨old, found, status⟩ := (Option.any_eq_true _ _).mp halted
      unfold Halted Db.run?
      rw [Relational.Table.rows_insert? inserted, List.find?_append]
      unfold Db.run? at found
      rw [found]
      exact status
    · cases done
  | cancelRun other done =>
    cases done
    refine staysHalted_update fun run _ status selected => ?_
    rfl
  | reenqueueRuns rows done =>
    cases done
    refine staysHalted_update fun run _ status selected => ?_
    simp only [Bool.and_eq_true, beq_iff_eq] at selected
    rw [selected.1] at status
    cases status
  | enqueuePatch new outside id done => exact (halted_frame runId).enqueueNodeJob done
  | _ =>
    rename_i done
    cases done
    exact id

end Statements

/-! ### Paths that never revive a run -/

section Always

variable {runId other : String} {cfg : Config} {host : Host} {fuel : Nat} {stale : List String}

theorem staysHalted_startRun :
    (Dispatcher.startRun cfg host stale other fuel).Always (StaysHalted runId) := by
  refine (halted_frame runId).getRun.bind fun found => ?_
  cases found with
  | none => trivial
  | some run =>
    refine (Always.ofExcept _).bind fun wf => ?_
    cases Dispatcher.assertGpuNodesDeclareModel cfg wf run with
    | ok _ => exact (halted_frame runId).processReady
    | error error =>
      dsimp only
      split
      · refine Always.bind (Always.commit fun db _ after done => ?_) fun _ => trivial
        exact staysHalted_updateRun (.inl rfl) done
      · trivial

theorem staysHalted_onNodeFailed {nodeId : String} :
    (Dispatcher.onNodeFailed cfg other nodeId).Always (StaysHalted runId) := by
  have frame := halted_frame runId
  refine frame.getRun.bind fun found => ?_
  split
  · trivial
  · refine frame.listJobs.bind fun existing => ?_
    split
    · exact frame.parks.flagPatchError trivial
    · refine Always.bind (Always.commit fun db _ after done => ?_) fun _ => ?_
      · cases done
        exact id
      · exact Always.commit fun db _ after done => staysHalted_updateRun (.inl rfl) done

theorem staysHalted_restartRun :
    (NodePool.restartRun cfg host fuel other).Always (StaysHalted runId) :=
  (halted_frame runId).deleteNonTerminal.bind fun _ => staysHalted_startRun.bind fun _ => trivial

theorem staysHalted_worker {job : NodeJob} {program : Program Unit}
    (always : program.Always (WorkerStep job)) : program.Always (StaysHalted runId) := by
  refine always.weaken fun db after wrote halted => ?_
  unfold Halted Db.run? at halted ⊢
  rw [wrote.1]
  exact halted

end Always

/-! ### Paths that read the run first -/

/-- The program may start while the run is halted, and anywhere but where it holds
a stale reading it keeps the run halted. -/
structure Fenced {α : Type} (runId : String) (program : Program α) : Prop where
  calm : program.Calm (Halted runId)
  respects : program.Respects (Stale runId) (Halted runId)

section Fenced

variable {runId other : String} {cfg : Config} {host : Host} {fuel : Nat} {α β : Type}

theorem Fenced.of_always {program : Program α} (always : program.Always (StaysHalted runId)) :
    Fenced runId program :=
  ⟨.of_always always, .of_always always⟩

theorem Fenced.pure (value : α) : Fenced runId (pure value : Program α) :=
  .of_always trivial

theorem Fenced.bind {program : Program α} {rest : α → Program β} (first : Fenced runId program)
    (second : ∀ value, Fenced runId (rest value)) : Fenced runId (program >>= rest) :=
  ⟨first.calm.bind fun value => (second value).calm,
    first.respects.bind (fun value => (second value).calm) fun value => (second value).respects⟩

theorem Fenced.awaiting {program : Program α} (waits : Site → Bool)
    (fenced : Fenced runId program) : Fenced runId (program.awaiting waits) :=
  ⟨fenced.calm.awaiting waits, fenced.respects.awaiting waits⟩

theorem Fenced.handle {program : Program α} {handler : PyErr → Program α}
    (first : Fenced runId program) (second : ∀ error, Fenced runId (handler error)) :
    Fenced runId (program.handle handler) :=
  ⟨first.calm.handle fun error => (second error).calm,
    first.respects.handle (fun error => (second error).calm) fun error => (second error).respects⟩

/-- A path that begins by reading the run and stops if it is halted. -/
theorem Fenced.getRun_bind {site : Site} {rest : Option RunRow → Program α}
    (stops : ∀ run, run.status.halted = true → ∀ db, (rest (some run)).Keeps (Halted runId) db)
    (respects : ∀ found, (rest found).Respects (Stale runId) (Halted runId)) :
    Fenced runId (commit site (RunStore.getRun runId) >>= rest) := by
  have reads : ∀ db found after, RunStore.getRun runId db = .ok (found, after) →
      Halted runId after → (rest found).Keeps (Halted runId) after := by
    intro db found after done halted
    cases done
    obtain ⟨run, read, status⟩ := (Option.any_eq_true _ _).mp halted
    rw [read]
    exact stops run status db
  refine ⟨.commit_bind fun db found after halted done => ?_,
    .commit_bind (fun db found after done => ⟨?_, reads db found after done⟩) respects⟩
  · have still : Halted runId after := by
      cases done
      exact halted
    exact ⟨still, reads db found after done still⟩
  · cases done
    exact id

theorem fenced_onNodeCompleted {nodeId : String} :
    Fenced runId (Dispatcher.onNodeCompleted cfg host other nodeId fuel) := by
  have frame := halted_frame runId
  by_cases same : other = runId
  · subst same
    refine .getRun_bind (fun run halted db => ?_) fun found => ?_
    · dsimp only
      rw [if_pos halted]
      trivial
    · cases found with
      | none => trivial
      | some run =>
        dsimp only
        split
        · trivial
        · refine Marked.respects_bind (Marked.commit (List.mem_singleton_self _)) fun existing => ?_
          split
          · exact .of_always (Transaction.Prog.Always.bind (frame.parks.finishPatchJob trivial) fun _ => trivial)
          · have inside := List.mem_singleton_self other
            exact (marked_advanceRun (fun _ _ => inside) inside inside).respects
  · exact .of_always (frame.onNodeCompleted same)

theorem marked_setRunning : (Dispatcher.setRunning runId).Marked (Stale runId) :=
  Marked.commit (List.mem_singleton_self _)

theorem respects_requeueBlocked {wf : Workflow} {run : RunRow} :
    (Dispatcher.requeueBlocked cfg host runId wf run fuel).Respects (Stale runId)
      (Halted runId) := by
  have inside : runId ∈ [runId] := List.mem_singleton_self _
  refine Marked.respects_bind (Marked.commit inside) fun dropped => ?_
  refine Marked.respects_bind ?_ fun expanded => ?_
  · unfold Dispatcher.expandDropped
    split
    · trivial
    · exact marked_processReady fun _ _ => inside
  · split
    · exact Marked.respects_bind marked_setRunning fun _ => trivial
    · refine .of_always (Always.bind (Always.commit fun db _ after done => ?_) fun _ => trivial)
      exact staysHalted_updateRun (.inl rfl) done

theorem fenced_reconcileRun : Fenced runId (Dispatcher.reconcileRun cfg host other fuel) := by
  by_cases same : other = runId
  · subst same
    have inside : other ∈ [other] := List.mem_singleton_self _
    refine .getRun_bind (fun run halted db => ?_) fun found => ?_
    · dsimp only
      rw [if_pos (RunStatus.terminal_of_halted halted)]
      trivial
    · cases found with
      | none => trivial
      | some run =>
        dsimp only
        split
        · trivial
        · refine Marked.respects_bind (Marked.commit inside) fun existing => ?_
          split
          · trivial
          · refine Marked.respects_bind (Marked.ofExcept _) fun wf => ?_
            refine Marked.respects_bind (Marked.ofExcept _) fun nodes => ?_
            split
            · exact Marked.respects_bind (Marked.commit inside) fun _ => trivial
            · refine Marked.respects_bind (marked_processReady fun _ _ => inside) fun expanded => ?_
              split
              · exact Marked.respects_bind marked_setRunning fun _ => trivial
              · exact respects_requeueBlocked
  · exact .of_always ((halted_frame runId).reconcileRun same)

theorem fenced_resumeAfterInput {nodeId : String} {value : Json} :
    Fenced runId (Dispatcher.resumeAfterInput cfg host other nodeId value fuel) := by
  refine (Fenced.of_always (halted_frame runId).listJobs).bind fun existing => ?_
  split
  · exact .of_always trivial
  · split
    · refine (Fenced.of_always (Always.ofExcept _)).bind fun delta => ?_
      refine Fenced.bind (.of_always (Always.commit fun db row after done => ?_)) fun _ =>
        fenced_onNodeCompleted
      cases done
      exact id
    · exact .pure 0

theorem fenced_handleEvent {event : DispatchEvent} :
    Fenced runId (NodePool.handleEvent cfg host fuel event) := by
  refine Fenced.handle (Fenced.bind ?_ fun _ => .pure _) fun _ => .pure _
  unfold NodePool.callback
  split
  · exact fenced_onNodeCompleted.bind fun _ => .pure _
  · exact .of_always staysHalted_onNodeFailed
  · exact .of_always (halted_frame runId).onNodeAwaitingInput

theorem fenced_drain {batch : List DispatchEvent} :
    Fenced runId (NodePool.drainDispatchEvents cfg host fuel batch) := by
  have handles (locked : List String) :
      Fenced runId (NodePool.handleEvents cfg host fuel locked batch) := by
    induction batch generalizing locked with
    | nil => exact .pure []
    | cons event rest ih =>
      refine (fenced_handleEvent.awaiting _).bind fun handled => ?_
      exact (Fenced.of_always (halted_frame runId).lockRun).bind fun poisoned => (ih _).bind fun _ => .pure _
  refine (handles []).bind fun handled => .of_always (Always.commit fun db _ after done => ?_)
  cases done
  exact staysHalted_bookkept (bookkept_foldl (.refl db) handled)

theorem fenced_sweep {runIds : List String} :
    Fenced runId (NodePool.sweepStuckRuns cfg host fuel runIds) := by
  induction runIds with
  | nil => exact .pure ()
  | cons first rest ih =>
    exact Fenced.bind (Fenced.handle (fenced_reconcileRun.bind fun _ => .pure ()) fun _ => .pure ())
      fun _ => ih

theorem fenced_processRows {rows : List InputSubmission} :
    Fenced runId (InputListener.processRows cfg host fuel rows) := by
  induction rows with
  | nil => exact .pure ()
  | cons row rest ih =>
    refine Fenced.bind (Fenced.bind (Fenced.handle (fenced_resumeAfterInput.bind fun _ => .pure _)
      fun _ => .pure _) fun failure => ?_) fun _ => ih
    cases failure with
    | none => exact .of_always (halted_frame runId).settleSubmission
    | some error => exact .of_always (halted_frame runId).settleSubmission

/-! ### The expansion loop -/

/-- The turn of the run itself: it holds the run until it has set it to `running`,
or until it has failed it. -/
theorem respects_expandRun {stale : List String} (inside : runId ∈ stale) :
    (NodePool.expandRun cfg host fuel stale runId).Respects (Stale runId) (Halted runId) := by
  have advances : ∀ inserted : Nat, (if 0 < inserted then
      commit ⟨.tickSetRunning, runId, stale⟩ (RunStore.updateRun runId { status := .running })
      else pure () : Program Unit).Respects (Stale runId) (Halted runId) := by
    intro inserted
    split
    · exact Marked.respects (Marked.commit inside)
    · trivial
  unfold NodePool.expandRun Dispatcher.startRun
  rw [bind_assoc]
  refine Marked.respects_bind (Marked.commit inside) fun found => ?_
  cases found with
  | none => trivial
  | some run =>
    rw [bind_assoc]
    refine Marked.respects_bind (Marked.ofExcept _) fun wf => ?_
    cases Dispatcher.assertGpuNodesDeclareModel cfg wf run with
    | ok _ => exact Marked.respects_bind (marked_processReady fun _ _ => inside) advances
    | error error =>
      dsimp only
      split
      · rw [bind_assoc]
        refine .of_always (Always.bind (Always.commit fun db _ after done => ?_) fun _ => trivial)
        exact staysHalted_updateRun (.inl rfl) done
      · trivial

theorem marked_expandRun {stale : List String} (inside : runId ∈ stale) (different : other ≠ runId) :
    (NodePool.expandRun cfg host fuel stale other).Marked (Stale runId) := by
  refine Marked.bind (Marked.bind (Marked.commit inside) fun found => ?_) fun inserted => ?_
  · cases found with
    | none => trivial
    | some run =>
      refine (Marked.ofExcept _).bind fun wf => ?_
      cases Dispatcher.assertGpuNodesDeclareModel cfg wf run with
      | ok _ => exact marked_processReady fun _ _ => inside
      | error error =>
        dsimp only
        split
        · refine Marked.bind (Marked.commit ?_) fun _ => trivial
          simp [Stale, inside, different.symm]
        · trivial
  · split
    · exact Marked.commit inside
    · trivial

theorem respects_expandRuns {runIds : List String} (distinct : runIds.Nodup) :
    (NodePool.expandRuns cfg host fuel runIds).Respects (Stale runId) (Halted runId) := by
  induction runIds with
  | nil => trivial
  | cons first rest ih =>
    obtain ⟨absent, distinct⟩ := List.nodup_cons.mp distinct
    by_cases same : first = runId
    · subst same
      have after : (NodePool.expandRuns cfg host fuel rest).Always (StaysHalted first) :=
        (halted_frame first).expandRuns fun other member same => absent (same ▸ member)
      refine Respects.bind (Respects.handle (respects_expandRun List.mem_cons_self)
        (fun _ => (Fenced.pure ()).calm) fun _ => trivial) (fun _ => .of_always after)
        fun _ => .of_always after
    · by_cases member : runId ∈ rest
      · refine Marked.respects_bind (Marked.handle (marked_expandRun ?_ same) fun _ => trivial)
          fun _ => ih distinct
        exact List.mem_cons_of_mem _ member
      · refine .of_always ((halted_frame runId).expandRuns fun other listed => ?_)
        rintro rfl
        rcases List.mem_cons.mp listed with here | later
        · exact same here.symm
        · exact member later

end Fenced

/-! ### The system -/

section System

variable {cfg : Config}

/-- Some path in flight may yet act on an old reading of the run. -/
def Sys.held (sys : Sys) (runId : String) : Bool :=
  sys.actors.any fun path => path.prog.site?.any fun site => site.stale.contains runId

/-- The step cancels or fails no run that a path in flight holds an old reading of. -/
def haltsUnheld (cfg : Config) (sys : Sys) (label : Label) : Bool :=
  match step cfg sys label with
  | none => true
  | some after => after.store.runs.rows.all fun run =>
      !run.status.halted || (sys.store.run? run.id).any (fun old => old.status.halted) ||
        !sys.held run.id

def Honest (path : Path) (_ : Db) : Prop :=
  ∀ runId, path.prog.Respects (Stale runId) (Halted runId)

theorem honest_rule : Pool.Rule (fun _ _ => True) Honest where
  stable held _ := held
  step {role prog rest state after} held stepped := by
    refine ⟨trivial, fun runId => ?_⟩
    have respects := held runId
    cases prog with
    | txn site act next =>
      simp only [Prog.step] at stepped
      split at stepped <;> cases stepped <;> exact respects.2 _
    | _ => cases stepped
  blip {role prog rest state error} held failed := by
    intro runId
    have respects := held runId
    cases prog with
    | txn site act next =>
      cases failed
      exact respects.2 _
    | _ => cases failed

theorem nodup_queued {db : Db} {project : String} {limit : Nat} :
    (RunStore.listQueuedNodeRunIds project limit db).Nodup := by
  have distinct : (db.runs.rows.map RunRow.id).Nodup := db.runs.unique
  refine List.Nodup.sublist ((List.take_sublist _ _).map _) ?_
  refine ((List.perm_insertionSort _ _).map RunRow.id).nodup_iff.mpr ?_
  exact distinct.sublist (List.filter_sublist.map _)

theorem not_halted_of_queued {db : Db} {project : String} {limit : Nat} {runId : String}
    (listed : runId ∈ RunStore.listQueuedNodeRunIds project limit db) : ¬ Halted runId db := by
  obtain ⟨run, taken, rfl⟩ := List.mem_map.mp listed
  have sorted := (List.perm_insertionSort _ _).mem_iff.mp (List.mem_of_mem_take taken)
  simp only [List.mem_filter, Bool.and_eq_true, beq_iff_eq] at sorted
  unfold Halted
  rw [Db.run?_of_mem sorted.1, Option.any_some, sorted.2.1.2]
  simp [RunStatus.halted]

theorem starts_honest {sys : Sys} {label : Label} {db : Db} {role : Role} {prog : Program Unit}
    (starts : Starts cfg sys label db role prog) : Honest ⟨role, prog⟩ db := by
  intro runId
  cases starts with
  | restart => exact .of_always staysHalted_restartRun
  | expand => exact respects_expandRuns nodup_queued
  | drain => exact fenced_drain.respects
  | sweep => exact fenced_sweep.respects
  | poll => exact fenced_processRows.respects
  | claimCpu => exact .of_always (staysHalted_worker (workerStep_frame _).runNode)
  | claimGpu => exact .of_always (staysHalted_worker (workerStep_frame _).runNode)
  | redeliver => exact .of_always (staysHalted_worker (workerStep_frame _).runNode)
  | trip => exact .of_always (staysHalted_worker (workerStep_frame _).watchdogTrip)

/-- A path that starts while a run is halted keeps it so. -/
theorem starts_keeps {sys : Sys} {label : Label} {db : Db} {role : Role} {prog : Program Unit}
    {runId : String} (halted : Halted runId db) (starts : Starts cfg sys label db role prog) :
    prog.Keeps (Halted runId) db := by
  cases starts with
  | restart => exact staysHalted_restartRun.safe _
  | expand =>
    refine ((halted_frame runId).expandRuns fun other listed => ?_).safe _
    rintro rfl
    exact not_halted_of_queued listed halted
  | drain => exact fenced_drain.calm _ halted
  | sweep => exact fenced_sweep.calm _ halted
  | poll => exact fenced_processRows.calm _ halted
  | claimCpu => exact (staysHalted_worker (workerStep_frame _).runNode).safe _
  | claimGpu => exact (staysHalted_worker (workerStep_frame _).runNode).safe _
  | redeliver => exact (staysHalted_worker (workerStep_frame _).runNode).safe _
  | trip => exact (staysHalted_worker (workerStep_frame _).watchdogTrip).safe _

/-- Every path in flight keeps every halted run halted. -/
def Absorbed (sys : Sys) : Prop :=
  ∀ runId, Halted runId sys.store → ∀ path ∈ sys.actors, path.prog.Keeps (Halted runId) sys.store

theorem keeps_rule (runId : String) : Pool.Rule (StaysHalted runId)
    (fun (path : Path) (db : Db) => path.prog.Keeps (Halted runId) db) where
  stable held moved := held.stable (fun _ _ _ _ _ => trivial) (.single moved)
  step held stepped := by
    obtain ⟨moved, rest⟩ := held.step stepped
    exact ⟨fun halted => Prog.holds_later halted moved, rest⟩
  blip held failed := held.blip failed

theorem Claims.staysHalted {before after : Db} {job : NodeJob} {runId : String}
    (claims : Claims before after job) : StaysHalted runId before after := by
  obtain ⟨claim, queue, capability, rank, done⟩ := claims
  obtain ⟨_, _, _, _, rfl⟩ := NodeQueue.claimNext_cases done
  exact id

/-- A step from a state where the run is halted already. -/
theorem step_keeps_halted {sys after : Sys} {label : Label} {runId : String}
    (absorbed : Absorbed sys) (halted : Halted runId sys.store)
    (stepped : step cfg sys label = some after) :
    Halted runId after.store ∧ ∀ path ∈ after.actors, path.prog.Keeps (Halted runId) after.store := by
  have starts : ∀ role prog, Starts cfg sys label after.store role prog →
      (sys.All fun path db => path.prog.Keeps (Halted runId) db) →
      prog.Keeps (Halted runId) after.store := by
    intro role prog begun _
    refine starts_keeps ?_ begun
    rcases begun.store with same | statement | ⟨job, claims⟩
    · exact same ▸ halted
    · exact statement.staysHalted halted
    · exact claims.staysHalted halted
  obtain ⟨moved, kept⟩ := step_all (keeps_rule runId) (fun _ => id)
    (fun statement => statement.staysHalted) (fun _ claims => claims.staysHalted) starts
    (absorbed runId halted) stepped
  exact ⟨moved halted, kept⟩

theorem calm_of_unheld {sys : Sys} {runId : String} {path : Path} (honest : sys.All Honest)
    (unheld : sys.held runId = false) (member : path ∈ sys.actors) :
    path.prog.Calm (Halted runId) ∧ ∀ site, path.prog.site? = some site → ¬ Stale runId site := by
  have free : ∀ site, path.prog.site? = some site → ¬ Stale runId site := by
    intro site found stale
    have away := List.any_eq_false.mp unheld path member
    simp only [found, Option.any_some, List.contains_eq_mem, decide_eq_true_eq] at away
    exact away stale
  exact ⟨(honest path member runId).calm free, free⟩

/-- A step that halts a run nobody holds. -/
theorem step_halts {sys after : Sys} {label : Label} {runId : String} (honest : sys.All Honest)
    (unheld : sys.held runId = false) (live : ¬ Halted runId sys.store)
    (halted : Halted runId after.store) (stepped : step cfg sys label = some after) :
    ∀ path ∈ after.actors, path.prog.Keeps (Halted runId) after.store := by
  have calm : ∀ path ∈ sys.actors, path.prog.Calm (Halted runId) := by
    intro path member
    exact (calm_of_unheld honest unheld member).1
  intro path member
  rcases step_cases stepped with ⟨-, same⟩ | ⟨role, prog, starts, spawned⟩ |
    ⟨index, -, advanced⟩ | ⟨index, error, -, failed⟩ | ⟨index, -, rfl⟩
  · exact calm path (same ▸ member) _ halted
  · rw [spawned] at member
    rcases List.mem_append.mp member with old | last
    · exact calm path old _ halted
    · rw [List.mem_singleton.mp last]
      exact starts_keeps halted starts
  · obtain ⟨actor, rest, found, moved, actors⟩ := Pool.advance_cases advanced
    rw [actors] at member
    rcases List.mem_or_eq_of_mem_set member with old | rfl
    · exact calm path old _ halted
    · obtain ⟨-, free⟩ := calm_of_unheld honest unheld (List.mem_of_getElem? found)
      have respects := honest actor (List.mem_of_getElem? found) runId
      cases program : actor.prog with
      | txn site act next =>
        rw [program] at moved respects free
        rcases respects.1 with stale | ⟨commits, -⟩
        · exact absurd stale (free site rfl)
        · simp only [Prog.step] at moved
          split at moved
          · rename_i value store done
            cases moved
            exact (commits _ _ _ done).2 halted
          · obtain ⟨-, store⟩ := Prod.mk.inj (Option.some.inj moved)
            exact absurd (store ▸ halted) live
      | _ =>
        rw [program] at moved
        cases moved
  · obtain ⟨_, _, _, _, store, _⟩ := Pool.blip_cases failed
    exact absurd (store ▸ halted) live
  · exact absurd halted live

theorem unheld_of_allowed {sys after : Sys} {label : Label} {runId : String}
    (allowed : haltsUnheld cfg sys label = true) (stepped : step cfg sys label = some after)
    (live : ¬ Halted runId sys.store) (halted : Halted runId after.store) :
    sys.held runId = false := by
  obtain ⟨run, found, status⟩ := (Option.any_eq_true _ _).mp halted
  obtain ⟨member, named⟩ := Db.run?_mem found
  simp only [haltsUnheld, stepped, List.all_eq_true] at allowed
  have clause := allowed run member
  simp only [status, Bool.not_true, Bool.false_or, Bool.or_eq_true, Bool.not_eq_true', named]
    at clause
  exact clause.resolve_left live

theorem step_absorbed {sys after : Sys} {label : Label} (honest : sys.All Honest)
    (absorbed : Absorbed sys) (allowed : haltsUnheld cfg sys label = true)
    (stepped : step cfg sys label = some after) : Absorbed after := by
  intro runId halted
  by_cases already : Halted runId sys.store
  · exact (step_keeps_halted absorbed already stepped).2
  · exact step_halts honest (unheld_of_allowed allowed stepped already halted) already halted stepped

theorem reach_absorbed {sys : Sys} (reached : Reach (step cfg) (haltsUnheld cfg) Sys.empty sys) :
    sys.All Honest ∧ Absorbed sys := by
  induction reached with
  | start => exact ⟨fun _ member => (by cases member), fun _ _ _ member => (by cases member)⟩
  | next label _ allowed stepped ih =>
    refine ⟨?_, step_absorbed ih.1 ih.2 allowed stepped⟩
    exact (step_all honest_rule (fun _ => trivial) (fun _ => trivial) (fun _ _ => trivial)
      (fun _ _ starts _ => starts_honest starts) ih.1 stepped).2

/-- Run-status absorption. As long as no run is cancelled or failed while a path in
flight holds an old reading of it, no step takes a `cancelled` or `failed` run
back to any other status. -/
theorem halted_run_stays_halted {sys after : Sys} {label : Label} {runId : String}
    (reached : Reach (step cfg) (haltsUnheld cfg) Sys.empty sys)
    (stepped : step cfg sys label = some after) (halted : Halted runId sys.store) :
    Halted runId after.store :=
  (step_keeps_halted (reach_absorbed reached).2 halted stepped).1

/-- Row 1 completes, the run is cancelled, and then its event is drained. -/
def Sample.cancelled : List Label :=
  List.flatten [
    Sample.expanded, [.prioritize 1, .claimCpu { host := "a" } Sample.host false],
    List.replicate 5 (.advance 1), [.cancelRun "r", .drain Sample.host 2]]

theorem cancelled_run_stays_cancelled : ∃ sys after : Sys, Halted "r" sys.store ∧
    step Sample.config sys (.advance 2) = some after ∧ Halted "r" after.store := by
  have reached : Reach (step Sample.config) (haltsUnheld Sample.config) Sys.empty
      ((follow (step Sample.config) (haltsUnheld Sample.config) Sys.empty
        Sample.cancelled).getD Sys.empty) := Reach.follow_getD Sample.cancelled (by decide)
  have able : (step Sample.config ((follow (step Sample.config) (haltsUnheld Sample.config)
      Sys.empty Sample.cancelled).getD Sys.empty) (.advance 2)).isSome = true := by decide
  obtain ⟨after, stepped⟩ := Option.isSome_iff_exists.mp able
  have halted : Halted "r" ((follow (step Sample.config) (haltsUnheld Sample.config) Sys.empty
      Sample.cancelled).getD Sys.empty).store := by decide
  exact ⟨_, after, halted, stepped, halted_run_stays_halted reached stepped halted⟩

/-- A cancellation lands between the expansion of the run and its `update_run`. -/
def Sample.cancelledHeld : List Label :=
  List.flatten [
    [.insertRun Sample.run, .expand Sample.host 2], List.replicate 6 (.advance 0),
    [.cancelRun "r"]]

/-- The expansion then sets the cancelled run to `running`. -/
theorem cancelled_run_revived : ∃ sys after : Sys,
    Reach (step Sample.config) anyStep Sys.empty sys ∧
      (sys.store.run? "r").map RunRow.status = some .cancelled ∧
      step Sample.config sys (.advance 0) = some after ∧
      (after.store.run? "r").map RunRow.status = some .running := by
  have reached := Sample.reach_after Sample.cancelledHeld (by decide)
  have wrote : ((step Sample.config (Sample.after Sample.cancelledHeld) (.advance 0)).map
      fun after => (after.store.run? "r").map RunRow.status) = some (some .running) := by decide
  obtain ⟨after, stepped, status⟩ := Option.map_eq_some_iff.mp wrote
  exact ⟨_, after, reached, by decide, stepped, status⟩

end System

end QueueWorkflows
