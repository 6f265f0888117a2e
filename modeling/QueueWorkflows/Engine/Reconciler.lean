import QueueWorkflows.Base.Outline
import QueueWorkflows.Engine.Outbox
import QueueWorkflows.Engine.Invariants

/-! The stuck-run reconciler against everything else that moves a run. It reads the
job table, expands and deletes in three separate transactions; what it has read has
to stay true until it deletes. -/

namespace QueueWorkflows

open Relation (ReflTransGen)
open Transaction (Prog Pool Reach Terms follow)
open Transaction.Prog (Always Outline commit ofExcept)

/-! ### Outlines of the paths in flight -/

/-- The path whose own transaction a step is. -/
def Label.mover : Label → Option Nat
  | .advance index => some index
  | _ => none

/-- Every path of a covered role stands on its outline. -/
def Outlines (terms : Terms Db Site) (covers : Role → Prop) (sys : Sys) : Prop :=
  sys.All fun path db => covers path.role → Pool.Outlined terms path db

section Outlines

variable {cfg : Config} {terms : Terms Db Site} {covers : Role → Prop} {sys after : Sys}
  {label : Label}

theorem step_outlines (outlines : Outlines terms covers sys)
    (unbroken : ∀ index path, sys.actors[index]? = some path → label.mover ≠ some index →
      covers path.role → ∀ site, path.prog.site? = some site → ∀ held : Db → Prop,
        terms.stable site held → held sys.store → held after.store)
    (granted : ∀ index path, sys.actors[index]? = some path → label.mover = some index →
      covers path.role → ∀ site, path.prog.site? = some site →
        terms.given site sys.store after.store)
    (starts : ∀ role prog, Starts cfg sys label after.store role prog → covers role →
      Pool.Outlined terms ⟨role, prog⟩ after.store)
    (stepped : step cfg sys label = some after) : Outlines terms covers after := by
  intro path member covered
  cases mover : label.mover with
  | none =>
    have others : ∀ path ∈ sys.actors, covers path.role → Pool.Outlined terms path after.store := by
      intro path member covered
      obtain ⟨index, found⟩ := List.mem_iff_getElem?.mp member
      exact (outlines path member covered).undisturbed
        (unbroken index path found (by simp [mover]) covered)
    rcases step_cases stepped with ⟨-, same⟩ | ⟨role, prog, begun, spawned⟩ |
      ⟨index, rfl, -⟩ | ⟨index, error, -, failed⟩ | ⟨index, -, rfl⟩
    · exact others path (same ▸ member) covered
    · rw [spawned] at member
      rcases List.mem_append.mp member with old | last
      · exact others path old covered
      · cases List.mem_singleton.mp last
        exact starts role prog begun covered
    · cases mover
    · obtain ⟨actor, rest, found, moved, store, actors⟩ := Pool.blip_cases failed
      rw [actors] at member
      rcases List.mem_or_eq_of_mem_set member with old | rfl
      · exact others path old covered
      · rw [store]
        exact (outlines actor (List.mem_of_getElem? found) covered).blip moved
    · exact others path (List.mem_of_mem_eraseIdx member) covered
  | some index =>
    have advanced : sys.advance index = some after := by
      cases label <;> cases mover
      exact stepped
    obtain ⟨actor, rest, found, moved, actors⟩ := Pool.advance_cases advanced
    rw [actors] at member
    rcases Pool.mem_set_cases member with rfl | ⟨other, apart, stands⟩
    · exact ((outlines actor (List.mem_of_getElem? found) covered).step
        (granted index actor found mover covered) moved).2
    · refine (outlines path (List.mem_of_getElem? stands) covered).undisturbed
        (unbroken other path stands ?_ covered)
      rw [mover]
      exact fun same => apart (Option.some.inj same).symm

/-- The transaction of a covered path is a good one. -/
theorem Outlines.good {index : Nat} {path : Path} (outlines : Outlines terms covers sys)
    (acting : sys.actors[index]? = some path) (covered : covers path.role)
    (granted : ∀ site, path.prog.site? = some site → terms.given site sys.store after.store)
    (stepped : step cfg sys (.advance index) = some after) :
    after.store = sys.store ∨ terms.good sys.store after.store := by
  obtain ⟨actor, rest, found, moved, -⟩ := Pool.advance_cases stepped
  cases acting.symm.trans found
  exact ((outlines path (List.mem_of_getElem? acting) covered).step granted moved).1

end Outlines

/-! ### The outline of a sweep -/

/-- Where `reconcile_run` acts on its reading of the job table: it lists the ready
nodes, and finds none, or deletes. -/
def Place.actsOnReading : Place → Bool
  | .readyJobs | .reconcileDelete => true
  | _ => false

/-- A sweep that has read the job table of a run counts on `calm` until it deletes.
`granted` is what is known of the run when it reads. -/
def sweepTerms (calm granted : String → Db → Prop) (good : Db → Db → Prop) : Terms Db Site where
  stable site held := held = (fun _ => True) ∨ held = (fun _ => False) ∨
    (site.place.actsOnReading = true ∧ held = calm site.run)
  given site db _ := site.place = .reconcileJobs → granted site.run db
  safe _ _ := True
  good := good
  idle _ := .inl rfl
  void _ := .inr (.inl rfl)

/-- A calm run may be swept: its reading shows it, and then its rows may go. -/
structure Sweepable (calm granted : String → Db → Prop) (good : Db → Db → Prop) : Prop where
  inserts : Inserts good
  updateRun : ∀ runId db fields after, RunStore.updateRun runId fields db = .ok ((), after) →
    good db after
  reads : ∀ runId db, granted runId db → ¬ Live runId db → calm runId db
  deletes : ∀ runId db dropped after, calm runId db →
    NodeQueue.deleteNonTerminalJobsForRun runId db = .ok (dropped, after) → good db after

namespace Sweepable

variable {calm granted : String → Db → Prop} {good : Db → Db → Prop} {cfg : Config} {host : Host}
  {fuel : Nat} {stale : List String}

theorem outline_dispatchReady (sweepable : Sweepable calm granted good) {run : RunRow}
    {existing : List NodeJob} {ready : List DagNode} :
    (Dispatcher.dispatchReady cfg host stale run existing ready).Outline
      (sweepTerms calm granted good)
      (fun outcome _ => ∀ count, outcome = .ok count → count = ready.length) fun _ => True := by
  induction ready with
  | nil =>
    intro _ _ count returned
    cases returned
    rfl
  | cons node rest ih =>
    have first : (Dispatcher.dispatchNode cfg host stale run existing node).Outline
        (sweepTerms calm granted good) (fun _ _ => True) fun _ => True :=
      Outline.of_always sweepable.inserts.dispatchNode (fun _ _ => trivial) fun _ _ => trivial
    refine first.bind (fun _ => ih.bind (fun others => ?_) ?_) ?_
    · intro _ counted count returned
      cases returned
      rw [counted others rfl]
      rfl
    · intro _ _ _ count raised
      cases raised
    · intro _ _ _ count raised
      cases raised

/-- An expansion that inserts nothing leaves what was asserted of the run. -/
theorem outline_processReady (sweepable : Sweepable calm granted good) {wf : Workflow}
    {run : RunRow} {assertion : Db → Prop}
    (asserted : assertion = (fun _ => True) ∨ assertion = calm run.id) :
    (Dispatcher.processReady cfg host stale wf run fuel).Outline (sweepTerms calm granted good)
      (fun outcome db => outcome = .ok 0 → assertion db) assertion := by
  induction fuel generalizing assertion with
  | zero => trivial
  | succ fuel ih =>
    have kept : (sweepTerms calm granted good).stable ⟨.readyJobs, run.id, stale⟩ assertion :=
      asserted.imp id fun calm => .inr ⟨rfl, calm⟩
    refine Outline.commit_bind kept (fun _ _ => trivial) ?_ fun _ _ _ raised => nomatch raised
    intro db existing after holds _ done
    cases done
    refine ⟨sweepable.inserts.refl db, ?_⟩
    cases expands : Dispatcher.nodesOf cfg wf run with
    | error error => exact ⟨assertion, holds, fun _ _ raised => nomatch raised⟩
    | ok nodes =>
      by_cases idle : (Dispatcher.findReadyNodes nodes (db.jobsOf run.id)).isEmpty = true
      · refine ⟨assertion, holds, ?_⟩
        simp only [Prog.ofExcept_ok, Prog.bind_pure', idle, if_true]
        intro state still _
        exact still
      · refine ⟨fun _ => True, trivial, ?_⟩
        simp only [Prog.ofExcept_ok, Prog.bind_pure', idle]
        refine sweepable.outline_dispatchReady.bind (fun inserted => ?_) fun _ _ _ raised =>
          nomatch raised
        have some : (Dispatcher.byModel
            (Dispatcher.findReadyNodes nodes (db.jobsOf run.id))).length ≠ 0 := by
          simpa [Dispatcher.byModel, List.length_insertionSort] using idle
        have more : (Dispatcher.processReady cfg host stale wf run fuel).Outline
            (sweepTerms calm granted good) (fun _ _ => True) fun _ => True :=
          Outline.of_always sweepable.inserts.processReady (fun _ _ => trivial) fun _ _ => trivial
        have counted : inserted ≠ 0 → (Dispatcher.processReady cfg host stale wf run fuel >>=
            fun others => (pure (inserted + others) : Program Nat)).Outline
            (sweepTerms calm granted good) (fun outcome db => outcome = .ok 0 → assertion db)
            fun _ => True := by
          intro positive
          refine more.bind (fun others _ _ returned => ?_) fun _ _ _ raised => nomatch raised
          have total : inserted + others = 0 := Except.ok.inj returned
          omega
        refine (Outline.of_fact counted).weaken fun _ exact => ⟨?_, trivial⟩
        rw [exact inserted rfl]
        exact some

theorem outline_requeueBlocked (sweepable : Sweepable calm granted good) {runId : String}
    {wf : Workflow} {run : RunRow} :
    (Dispatcher.requeueBlocked cfg host runId wf run fuel).Outline (sweepTerms calm granted good)
      (fun _ _ => True) (calm runId) := by
  refine Outline.commit_bind (.inr (.inr ⟨rfl, rfl⟩)) (fun _ _ => trivial) ?_ fun _ _ _ => trivial
  intro db dropped after quiet _ done
  refine ⟨sweepable.deletes runId db dropped after quiet done, fun _ => True, trivial, ?_⟩
  have expands : (Dispatcher.expandDropped cfg host runId wf run fuel dropped).Always good := by
    unfold Dispatcher.expandDropped
    split
    · trivial
    · exact sweepable.inserts.processReady
  refine Outline.of_always (expands.bind fun expanded => ?_) (fun _ _ => trivial) fun _ _ => trivial
  split
  · refine Always.bind (Always.commit fun db _ after done => ?_) fun _ => trivial
    exact sweepable.updateRun _ db _ after done
  · refine Always.bind (Always.commit fun db _ after done => ?_) fun _ => trivial
    exact sweepable.updateRun _ db _ after done

theorem outline_reconcileRun (sweepable : Sweepable calm granted good) {runId : String} :
    (Dispatcher.reconcileRun cfg host runId fuel).Outline (sweepTerms calm granted good)
      (fun _ _ => True) fun _ => True := by
  refine Outline.commit_bind (.inl rfl) (fun _ _ => trivial) ?_ fun _ _ _ => trivial
  intro db found after _ _ done
  cases done
  refine ⟨sweepable.inserts.refl db, fun _ => True, trivial, ?_⟩
  cases row : db.run? runId with
  | none => exact fun _ _ => trivial
  | some run =>
    obtain ⟨-, rfl⟩ := Db.run?_mem row
    dsimp only
    split
    · exact fun _ _ => trivial
    refine Outline.commit_bind (.inl rfl) (fun _ _ => trivial) ?_ fun _ _ _ => trivial
    intro now existing after _ known done
    cases done
    refine ⟨sweepable.inserts.refl now, ?_⟩
    by_cases live : ((now.jobsOf run.id).any fun job => job.status.live) = true
    · refine ⟨fun _ => True, trivial, ?_⟩
      simp only [live, if_true]
      exact fun _ _ => trivial
    · have quiet : calm run.id now :=
        sweepable.reads run.id now (known rfl) fun found => live (live_iff.mp found)
      refine ⟨calm run.id, quiet, ?_⟩
      simp only [live]
      refine Outline.ofExcept_bind (fun wf _ => ?_) fun _ _ _ => trivial
      refine Outline.ofExcept_bind (fun nodes _ => ?_) fun _ _ _ => trivial
      split
      · refine Outline.of_always (Always.bind (Always.commit fun db _ after done => ?_)
          fun _ => trivial) (fun _ _ => trivial) fun _ _ => trivial
        exact sweepable.updateRun _ db _ after done
      · refine (sweepable.outline_processReady (.inr rfl)).bind (fun expanded => ?_)
          fun _ _ _ => trivial
        by_cases grown : 0 < expanded
        · simp only [grown, if_true]
          refine Outline.of_always (Always.bind (Always.commit fun db _ after done => ?_)
            fun _ => trivial) (fun _ _ => trivial) fun _ _ => trivial
          exact sweepable.updateRun _ db _ after done
        · simp only [grown]
          have nothing : expanded = 0 := by omega
          subst nothing
          exact sweepable.outline_requeueBlocked.weaken fun _ still => still rfl

theorem outline_sweep (sweepable : Sweepable calm granted good) {runIds : List String} :
    (NodePool.sweepStuckRuns cfg host fuel runIds).Outline (sweepTerms calm granted good)
      (fun _ _ => True) fun _ => True := by
  induction runIds with
  | nil => exact fun _ _ => trivial
  | cons runId rest ih =>
    have first : (do let _ ← Dispatcher.reconcileRun cfg host runId fuel : Program Unit).Outline
        (sweepTerms calm granted good) (fun _ _ => True) fun _ => True :=
      sweepable.outline_reconcileRun.bind (fun _ _ _ => trivial) fun _ _ _ => trivial
    refine Outline.seq (first.caught fun error => ?_) fun _ => ih
    exact fun _ _ => trivial

end Sweepable

/-! ### Live rows -/

section LiveRows

variable {cfg : Config} {sys after : Sys} {label : Label}

def Role.isSweep : Role → Prop
  | .sweep _ => True
  | _ => False

/-- The run whose job table a sweep has read and is about to act on. -/
def Path.acting? (path : Path) : Option String :=
  match path.role, path.prog.site? with
  | .sweep _, some site => if site.place.actsOnReading then some site.run else none
  | _, _ => none

/-- No other path gives a run its first live row while a sweep acts on having seen none. -/
def arrivesUnswept (cfg : Config) (sys : Sys) (label : Label) : Bool :=
  (step cfg sys label).all fun after => sys.actors.zipIdx.all fun (path, index) =>
    label.mover == some index || (Path.acting? path).all fun runId =>
      hasLive sys.store runId || !hasLive after.store runId

/-- Every live row is still there, as it was. -/
def SparesLive (before after : Db) : Prop :=
  ∀ job ∈ before.jobs.rows, job.status.live = true → job ∈ after.jobs.rows

theorem sparesLive_sweepable :
    Sweepable (fun runId db => ¬ Live runId db) (fun _ _ => True) SparesLive where
  inserts := {
    refl := fun _ _ member _ => member
    insert := by
      intro db job jobs _ inserted old member _
      dsimp only
      rw [Relational.Table.rows_insert? inserted]
      exact List.mem_append_left _ member }
  updateRun := by
    intro runId db fields after done old member _
    cases done
    exact member
  reads _ _ _ none := none
  deletes := by
    intro runId db dropped after none done old member live
    cases done
    refine List.mem_filter.mpr ⟨member, ?_⟩
    by_cases mine : old.runId = runId
    · exact absurd ⟨old, member, mine, live⟩ none
    · simp [mine]

theorem starts_sweep {calm granted : String → Db → Prop} {good : Db → Db → Prop} {db : Db}
    {role : Role} {prog : Program Unit} (sweepable : Sweepable calm granted good)
    (starts : Starts cfg sys label db role prog) (covered : Role.isSweep role) :
    Pool.Outlined (sweepTerms calm granted good) ⟨role, prog⟩ db := by
  cases starts with
  | sweep => exact ⟨_, trivial, sweepable.outline_sweep⟩
  | _ => exact covered.elim

/-- The sweeps stand on their outlines, and what they hold of a run others do not break. -/
theorem step_sweeps {calm granted : String → Db → Prop} {good : Db → Db → Prop}
    (sweepable : Sweepable calm granted good)
    (outlines : Outlines (sweepTerms calm granted good) Role.isSweep sys)
    (unbroken : ∀ index path runId, sys.actors[index]? = some path → label.mover ≠ some index →
      Path.acting? path = some runId → calm runId sys.store → calm runId after.store)
    (known : ∀ index path site, sys.actors[index]? = some path → label.mover = some index →
      Role.isSweep path.role → path.prog.site? = some site → site.place = .reconcileJobs →
      granted site.run sys.store)
    (stepped : step cfg sys label = some after) :
    Outlines (sweepTerms calm granted good) Role.isSweep after := by
  refine step_outlines outlines ?_ ?_ ?_ stepped
  · intro index path found other covered site stands held stable holds
    rcases stable with rfl | rfl | ⟨acts, rfl⟩
    · trivial
    · exact holds
    · refine unbroken index path site.run found other ?_ holds
      cases role : path.role <;> rw [role] at covered <;> try exact covered.elim
      simp [Path.acting?, role, stands, acts]
  · intro index path found own covered site stands reading
    exact known index path site found own covered stands reading
  · intro role prog starts covered
    exact starts_sweep sweepable starts covered

theorem unlive_of_allowed {index : Nat} {path : Path} {runId : String}
    (allowed : arrivesUnswept cfg sys label = true) (stepped : step cfg sys label = some after)
    (found : sys.actors[index]? = some path) (other : label.mover ≠ some index)
    (acts : Path.acting? path = some runId) (none : ¬ Live runId sys.store) :
    ¬ Live runId after.store := by
  intro live
  simp only [arrivesUnswept, stepped, Option.all_some, List.all_eq_true] at allowed
  have clause := allowed (path, index) (List.mem_zipIdx_iff_getElem?.mpr found)
  simp only [Bool.or_eq_true, beq_iff_eq, other, false_or, acts, Option.all_some,
    Bool.not_eq_true'] at clause
  rcases clause with already | still
  · exact none (live_iff.mpr already)
  · rw [live_iff.mp live] at still
    cases still

theorem reach_sparing (reached : Reach (step cfg) (arrivesUnswept cfg) Sys.empty sys) :
    Outlines (sweepTerms (fun runId db => ¬ Live runId db) (fun _ _ => True) SparesLive)
      Role.isSweep sys := by
  induction reached with
  | start => exact fun _ member => nomatch member
  | @next before after label _ allowed stepped ih =>
    refine step_sweeps sparesLive_sweepable ih ?_ (fun _ _ _ _ _ _ _ _ => trivial) stepped
    intro index path runId found other acts none
    exact unlive_of_allowed allowed stepped found other acts none

/-- The reconciler never removes live work, as long as no other path gives a run its
first live row between the sweep's reading of that run and its delete. -/
theorem reconciler_spares_live_rows {index : Nat} {path : Path} {runIds : List String}
    (reached : Reach (step cfg) (arrivesUnswept cfg) Sys.empty sys)
    (acting : sys.actors[index]? = some path) (role : path.role = .sweep runIds)
    (stepped : step cfg sys (.advance index) = some after) :
    ∀ job ∈ sys.store.jobs.rows, job.status.live = true → job ∈ after.store.jobs.rows := by
  have covered : Role.isSweep path.role := by
    rw [role]
    trivial
  rcases (reach_sparing reached).good acting covered (fun _ _ _ => trivial) stepped with
    same | spared
  · intro job member _
    rw [same]
    exact member
  · exact spared

/-- Two runs are expanded, the queued rows of the first are cancelled, and a sweep
stands before its delete. -/
def Sample.deadEnded : List Label :=
  List.flatten [
    [.insertRun Sample.run, .insertRun { Sample.run with id := "s" }, .expand Sample.host 2],
    List.replicate 14 (.advance 0), [.cancelQueued "r", .sweep Sample.host 2],
    List.replicate 3 (.advance 1)]

theorem dead_ended_run_swept : ∃ sys after : Sys,
    (sys.actors[1]?.bind fun path => path.prog.site?.map Site.place) = some .reconcileDelete ∧
      step Sample.config sys (.advance 1) = some after ∧
      (sys.store.jobs.rows.map fun job => (job.runId, job.status.live)) =
        [("r", false), ("r", false), ("s", true), ("s", true)] ∧
      ∀ job ∈ sys.store.jobs.rows, job.status.live = true → job ∈ after.store.jobs.rows := by
  have reached : Reach (step Sample.config) (arrivesUnswept Sample.config) Sys.empty
      ((follow (step Sample.config) (arrivesUnswept Sample.config) Sys.empty
        Sample.deadEnded).getD Sys.empty) := Reach.follow_getD Sample.deadEnded (by decide)
  have able : (step Sample.config ((follow (step Sample.config) (arrivesUnswept Sample.config)
      Sys.empty Sample.deadEnded).getD Sys.empty) (.advance 1)).isSome = true := by decide
  obtain ⟨after, stepped⟩ := Option.isSome_iff_exists.mp able
  have swept : (((follow (step Sample.config) (arrivesUnswept Sample.config) Sys.empty
      Sample.deadEnded).getD Sys.empty).actors[1]?.bind fun path =>
        match path.role with
        | .sweep runIds => some runIds
        | _ => none).isSome = true := by decide
  obtain ⟨runIds, found⟩ := Option.isSome_iff_exists.mp swept
  obtain ⟨path, acting, sweeps⟩ := Option.bind_eq_some_iff.mp found
  have role : path.role = .sweep runIds := by
    cases role : path.role <;> rw [role] at sweeps <;> cases sweeps
    rfl
  exact ⟨_, after, by decide, stepped, by decide,
    reconciler_spares_live_rows reached acting role stepped⟩

/-- The input listener has marked the answered node completed; a sweep reads the run,
which has no live row now; the listener inserts the next row, 2; the sweep finds
nothing ready. -/
def Sample.answeredUnderSweep : List Label :=
  List.flatten [
    Sample.expanded, [.prioritize 1, .claimCpu { host := "a" } Sample.host false],
    List.replicate 5 (.advance 1), [.submit "r" "ask" (.str "yes"), .poll Sample.host 2],
    List.replicate 2 (.advance 2), [.sweep Sample.host 2], List.replicate 2 (.advance 3),
    List.replicate 5 (.advance 2), [.advance 3]]

/-- The sweep then deletes the queued row. -/
theorem live_row_swept : ∃ sys after : Sys, Reach (step Sample.config) anyStep Sys.empty sys ∧
    (sys.actors[3]?.bind fun path => path.prog.site?.map Site.place) = some .reconcileDelete ∧
    step Sample.config sys (.advance 3) = some after ∧
    (sys.store.job? 2).map NodeJob.status = some .queued ∧ after.store.job? 2 = none := by
  have reached := Sample.reach_after Sample.answeredUnderSweep (by decide)
  have gone : ((step Sample.config (Sample.after Sample.answeredUnderSweep) (.advance 3)).map
      fun after => (after.store.job? 2).isNone) = some true := by decide
  obtain ⟨after, stepped, dropped⟩ := Option.map_eq_some_iff.mp gone
  exact ⟨_, after, reached, by decide, stepped, by decide, by simpa using dropped⟩

end LiveRows

end QueueWorkflows
