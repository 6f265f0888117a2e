import QueueWorkflows.Engine.Outbox

/-! Who believes to own a row. The ownership token is the host label, so the tests
of the lease renewer and of the status watcher tell two executions of one row
apart exactly when their labels differ. -/

namespace QueueWorkflows

open Transaction (Pool Reach follow)
open Transaction.Prog (Always)

/-- `JobStatusWatcher` lets the execution go on. -/
def believes (db : Db) (job : NodeJob) : Bool :=
  job.claimedBy.any fun claimedBy => ClaimWorker.stillOurs db job.id claimedBy

/-- `LeaseRenewer` would extend the lease for the execution. -/
def renews (db : Db) (job : NodeJob) : Bool :=
  job.claimedBy.any fun claimedBy => ClaimWorker.renewable db job.id claimedBy

/-- No in-flight execution of the row that is about to be claimed runs under the
label it is claimed under. -/
def labelFree (sys : Sys) (claim : Txn (Option NodeJob)) : Bool :=
  match claim sys.store with
  | .ok (some job, _) => sys.executions.all fun other =>
      !(other.id == job.id && other.claimedBy == job.claimedBy)
  | _ => true

/-- Executions start by claims alone, and none under the label of another
in-flight execution of the same row. -/
def distinctLabels (sys : Sys) : Label → Bool
  | .claimCpu claim _ _ => labelFree sys (NodeQueue.claimNextCpuJob claim)
  | .claimGpu claim gpu _ _ => labelFree sys (NodeQueue.claimNextGpuJob claim gpu)
  | .redeliver _ _ _ => false
  | _ => true

/-- An earlier execution of a row is not the one the row is claimed by. -/
def Displaced (db : Db) (earlier later : NodeJob) : Prop :=
  earlier.id = later.id → ∀ row ∈ db.jobs.rows, row.id = earlier.id →
    row.claimedBy ≠ earlier.claimedBy

section Displaced

variable {db after : Db} {earlier later : NodeJob}

theorem Displaced.unclaims (unclaims : Unclaims db after) (labelled : earlier.claimedBy ≠ none)
    (displaced : Displaced db earlier later) : Displaced after earlier later := by
  intro same row member mine held
  rcases unclaims row member with released | ⟨old, present, id, owner⟩
  · exact labelled (held.symm.trans released)
  · exact displaced same old present (id.trans mine) (owner.trans held)

theorem Displaced.not_believes (displaced : Displaced db earlier later)
    (same : earlier.id = later.id) : believes db earlier = false := by
  rw [Bool.eq_false_iff]
  intro believing
  obtain ⟨label, claimed, ours⟩ := (Option.any_eq_true _ _).mp believing
  obtain ⟨row, found, held⟩ := (Option.any_eq_true _ _).mp ours
  obtain ⟨member, mine⟩ := Db.job?_mem found
  exact displaced same row member mine (claimed ▸ by simpa using held)

theorem renews_believes (renewing : renews db earlier = true) : believes db earlier = true := by
  obtain ⟨label, claimed, ours⟩ := (Option.any_eq_true _ _).mp renewing
  obtain ⟨row, found, held⟩ := (Option.any_eq_true _ _).mp ours
  simp only [Bool.and_eq_true] at held
  exact (Option.any_eq_true _ _).mpr ⟨label, claimed, (Option.any_eq_true _ _).mpr
    ⟨row, found, held.1⟩⟩

/-- A renewal by a displaced execution extends nothing. -/
theorem Displaced.renews_nothing (displaced : Displaced db earlier later)
    (same : earlier.id = later.id) {label : String} (claimed : earlier.claimedBy = some label)
    {leaseS : Int} {renewed : Bool}
    (done : NodeQueue.renewLease earlier.id label leaseS db = .ok (renewed, after)) :
    renewed = false ∧ after.jobs.rows = db.jobs.rows := by
  have missed : ∀ row ∈ db.jobs.rows,
      (row.id == earlier.id && row.claimedBy == some label && row.status == .running) = false := by
    intro row member
    by_cases mine : row.id = earlier.id
    · have other := displaced same row member mine
      rw [claimed] at other
      simp [other]
    · simp [mine]
  cases done
  constructor
  · simp only [List.isEmpty_map, Bool.not_eq_false', List.isEmpty_iff, List.filter_eq_nil_iff]
    intro row member
    simp [missed row member]
  · refine (List.map_congr_left fun row member => ?_).trans (List.map_id _)
    rw [if_neg (by simp [missed row member])]
    rfl

end Displaced

/-! ### The pool -/

section Pool

variable {cfg : Config}

theorem filterMap_set_sublist {α β : Type*} {f : α → Option β} {list : List α} {index : Nat}
    {old new : α} (found : list[index]? = some old) (same : f new = none ∨ f new = f old) :
    ((list.set index new).filterMap f).Sublist (list.filterMap f) := by
  induction list generalizing index with
  | nil => cases found
  | cons head rest ih =>
    cases index with
    | zero =>
      cases found
      rcases same with none | kept
      · rw [List.set_cons_zero, List.filterMap_cons_none none]
        exact (List.sublist_cons_self old rest).filterMap f
      · simp only [List.set_cons_zero, List.filterMap_cons, kept]
        exact List.Sublist.refl _
    | succ index =>
      have smaller := ih found
      simp only [List.set_cons_succ, List.filterMap_cons]
      split
      · exact smaller
      · exact smaller.cons_cons _

theorem executing_continued {path : Path} {rest : Program Unit}
    (flying : path.prog.inFlight = true) :
    executing { path with prog := rest } = none ∨
      executing { path with prog := rest } = executing path := by
  unfold executing
  cases role : path.role with
  | execution job => by_cases still : rest.inFlight = true <;> simp [flying, still]
  | _ => exact .inl rfl

/-- Whatever does not claim leaves every row to whoever holds it. -/
theorem WorkerWrite.unclaims {job : NodeJob} {change : NodeJob → NodeJob} {db after : Db}
    (write : WorkerWrite job change db after) : Unclaims db after :=
  inherits_update write.keys write.rows fun row _ => write.owners row

theorem advance_unclaims {ok : Sys → Label → Bool} {sys after : Sys} {index : Nat}
    (reached : Reach (step cfg) ok Sys.empty sys) (advanced : sys.advance index = some after) :
    Unclaims sys.store after.store := by
  obtain ⟨path, rest, found, moved, -⟩ := Pool.advance_cases advanced
  have disciplined := reach_disciplined reached path (List.mem_of_getElem? found)
  unfold Disciplined at disciplined
  have idle : ∀ program : Program Unit, program = path.prog → program.Always Backstage →
      Unclaims sys.store after.store := by
    rintro program rfl always
    rcases (always.step moved).1 with same | backstage
    · exact inherits_of_same (congrArg Db.jobs same)
    · exact backstage.unclaims
  cases role : path.role with
  | execution job =>
    obtain ⟨⟨change, write⟩, -⟩ := worker_advance reached found (.inl role) advanced
    exact write.unclaims
  | trip job =>
    obtain ⟨⟨change, write⟩, -⟩ := worker_advance reached found (.inr role) advanced
    exact write.unclaims
  | _ =>
    rw [role] at disciplined
    exact idle _ rfl disciplined

theorem labelFree_cases {sys : Sys} {claim : Txn (Option NodeJob)} {job : NodeJob} {db : Db}
    (free : labelFree sys claim = true) (claimed : claim sys.store = .ok (some job, db)) :
    ∀ other ∈ sys.executions, other.id = job.id → other.claimedBy ≠ job.claimedBy := by
  intro other member same owner
  simp only [labelFree, claimed, List.all_eq_true] at free
  simpa [same, owner] using free other member

theorem executing_sublist {job : NodeJob} {prog : Program Unit} :
    ([(⟨.execution job, prog⟩ : Path)].filterMap executing).Sublist [job] := by
  by_cases flying : prog.inFlight = true <;> simp [executing, flying]

theorem executions_spawned {sys after : Sys} {path : Path}
    (spawned : after.actors = sys.actors ++ [path]) :
    after.executions = sys.executions ++ [path].filterMap executing := by
  unfold Sys.executions
  rw [spawned, List.filterMap_append]

/-- Every step claims nothing and starts no execution, or is a claim that starts one. -/
theorem ownership_cases {ok : Sys → Label → Bool} {sys after : Sys} {label : Label}
    (reached : Reach (step cfg) ok Sys.empty sys) (allowed : distinctLabels sys label = true)
    (stepped : step cfg sys label = some after) :
    (Unclaims sys.store after.store ∧ after.executions.Sublist sys.executions) ∨
    ∃ job, Claims sys.store after.store job ∧
      (∀ other ∈ sys.executions, other.id = job.id → other.claimedBy ≠ job.claimedBy) ∧
      after.executions.Sublist (sys.executions ++ [job]) := by
  rcases step_cases stepped with ⟨statement, same⟩ | ⟨role, prog, starts, spawned⟩ |
    ⟨index, -, advanced⟩ | ⟨index, error, -, failed⟩ | ⟨index, -, rfl⟩
  · refine .inl ⟨statement.backstage.unclaims, ?_⟩
    unfold Sys.executions
    rw [same]
  · have listed := executions_spawned spawned
    generalize after.store = db at starts ⊢
    cases starts with
    | claimCpu claim host hasCache job db claimed =>
      refine .inr ⟨job, ⟨claim, _, _, _, claimed⟩, labelFree_cases allowed claimed, ?_⟩
      exact listed ▸ (List.Sublist.refl _).append executing_sublist
    | claimGpu claim gpu host hasCache job db claimed =>
      refine .inr ⟨job, ⟨claim, _, _, _, claimed⟩, labelFree_cases allowed claimed, ?_⟩
      exact listed ▸ (List.Sublist.refl _).append executing_sublist
    | redeliver => cases allowed
    | _ =>
      rw [List.filterMap_cons_none rfl, List.filterMap_nil, List.append_nil] at listed
      exact .inl ⟨inherits_of_same rfl, listed ▸ List.Sublist.refl _⟩
  · refine .inl ⟨advance_unclaims reached advanced, ?_⟩
    obtain ⟨path, rest, found, moved, actors⟩ := Pool.advance_cases advanced
    unfold Sys.executions
    rw [actors]
    exact filterMap_set_sublist found
      (executing_continued (Transaction.Prog.inFlight_of_step moved))
  · obtain ⟨path, rest, found, moved, store, actors⟩ := Pool.blip_cases failed
    refine .inl ⟨inherits_of_same (congrArg Db.jobs store), ?_⟩
    unfold Sys.executions
    rw [actors]
    exact filterMap_set_sublist found
      (executing_continued (Transaction.Prog.inFlight_of_blip moved))
  · exact .inl ⟨inherits_of_same rfl, (List.eraseIdx_sublist _ _).filterMap _⟩

/-- The invariant of the ownership tests. -/
structure Owned (sys : Sys) : Prop where
  labelled : ∀ job ∈ sys.executions, job.claimedBy ≠ none
  displaced : sys.executions.Pairwise (Displaced sys.store)

theorem step_owned {ok : Sys → Label → Bool} {sys after : Sys} {label : Label}
    (reached : Reach (step cfg) ok Sys.empty sys) (allowed : distinctLabels sys label = true)
    (owned : Owned sys) (stepped : step cfg sys label = some after) : Owned after := by
  rcases ownership_cases reached allowed stepped with ⟨unclaims, fewer⟩ |
    ⟨job, claims, free, fewer⟩
  · refine ⟨fun job member => owned.labelled job (fewer.subset member), ?_⟩
    refine (owned.displaced.imp_of_mem fun first _ displaced => ?_).sublist fewer
    exact displaced.unclaims unclaims (owned.labelled _ first)
  · obtain ⟨claimed, -, labelled, others⟩ := claims.cases
    have taken : ∀ earlier ∈ sys.executions, earlier.id = job.id →
        ∀ row ∈ after.store.jobs.rows, row.id = earlier.id →
          row.claimedBy ≠ earlier.claimedBy := by
      intro earlier first same row member mine owner
      rw [Db.eq_of_id member claimed (mine.trans same)] at owner
      exact free earlier first same owner.symm
    refine ⟨fun other member => ?_, List.Pairwise.sublist fewer ?_⟩
    · rcases List.mem_append.mp (fewer.subset member) with old | last
      · exact owned.labelled other old
      · rw [List.mem_singleton.mp last]
        exact labelled
    · rw [List.pairwise_append]
      refine ⟨owned.displaced.imp_of_mem fun {earlier later} first _ displaced => ?_,
        List.pairwise_singleton _ _, ?_⟩
      · by_cases same : earlier.id = job.id
        · exact fun _ => taken earlier first same
        · intro twin row member mine
          exact displaced twin row (others row member (mine ▸ same)) mine
      · intro earlier first later last
        rw [List.mem_singleton.mp last]
        exact fun same => taken earlier first same

theorem reach_owned {sys : Sys} (reached : Reach (step cfg) distinctLabels Sys.empty sys) :
    Owned sys := by
  induction reached with
  | start => exact ⟨by simp [Sys.executions, Sys.empty], by simp [Sys.executions, Sys.empty]⟩
  | next label before allowed stepped ih => exact step_owned before allowed ih stepped

/-- Single believing owner. As long as no claim hands out a row under the label of
an in-flight execution of that row, at most one execution of a row passes the
watcher's test at any moment; an execution that another has followed passes
neither test, and its renewals extend nothing. -/
theorem single_believing_owner {sys : Sys}
    (reached : Reach (step cfg) distinctLabels Sys.empty sys) :
    (∀ jobId, (sys.executions.filter fun job =>
      job.id == jobId && believes sys.store job).length ≤ 1) ∧
    ∀ earlier later, [earlier, later].Sublist sys.executions → earlier.id = later.id →
      believes sys.store earlier = false ∧ renews sys.store earlier = false ∧
      ∀ label leaseS renewed after, earlier.claimedBy = some label →
        NodeQueue.renewLease earlier.id label leaseS sys.store = .ok (renewed, after) →
          renewed = false ∧ after.jobs.rows = sys.store.jobs.rows := by
  have owned := reach_owned reached
  constructor
  · intro jobId
    have apart := owned.displaced.sublist (List.filter_sublist (p := fun job =>
      job.id == jobId && believes sys.store job))
    have all : ∀ job ∈ sys.executions.filter fun job =>
        job.id == jobId && believes sys.store job, job.id = jobId ∧ believes sys.store job = true := by
      intro job member
      simpa using (List.mem_filter.mp member).2
    cases list : sys.executions.filter fun job => job.id == jobId && believes sys.store job with
    | nil => simp
    | cons first rest =>
      cases rest with
      | nil => simp
      | cons second rest =>
        rw [list] at apart all
        have displaced := (List.pairwise_cons.mp apart).1 second List.mem_cons_self
        have one := all first (by simp)
        have two := all second (by simp)
        have idle := displaced.not_believes (one.1.trans two.1.symm)
        simp [one.2] at idle
  · intro earlier later order same
    have displaced : Displaced sys.store earlier later := by
      have pair := owned.displaced.sublist order
      exact (List.pairwise_cons.mp pair).1 later (by simp)
    have idle := displaced.not_believes same
    refine ⟨idle, ?_, fun label leaseS renewed after claimed done => ?_⟩
    · rw [Bool.eq_false_iff]
      intro renewing
      simp [renews_believes renewing] at idle
    · exact displaced.renews_nothing same claimed done

/-- Two claims of row 1, by two workers of one label, with a lapsed lease in between. -/
def Sample.relabelled (label : String) : List Label :=
  List.append Sample.expanded [.prioritize 1, .claimCpu { host := "a" } Sample.host false,
    .clock (seconds 601), .reclaimExpired, .claimCpu { host := label } Sample.host false]

theorem reassigned_row_has_one_owner :
    (((follow (step Sample.config) distinctLabels Sys.empty (Sample.relabelled "b")).getD
      Sys.empty).executions.filter fun job => job.id == 1 && believes ((follow (step Sample.config)
        distinctLabels Sys.empty (Sample.relabelled "b")).getD Sys.empty).store job).length ≤ 1 :=
  (single_believing_owner (Reach.follow_getD (Sample.relabelled "b") (by decide))).1 1

def claimsOnly (_ : Sys) : Label → Bool
  | .redeliver _ _ _ => false
  | _ => true

/-- Under one label, both executions pass both tests. -/
theorem relabelled_row_has_two_owners : ∃ sys : Sys,
    Reach (step Sample.config) claimsOnly Sys.empty sys ∧
      (sys.executions.filter fun job =>
        job.id == 1 && believes sys.store job && renews sys.store job).length = 2 := by
  refine ⟨_, Reach.follow_getD (Sample.relabelled "a") (by decide), ?_⟩
  decide

end Pool

end QueueWorkflows
