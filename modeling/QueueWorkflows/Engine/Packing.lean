import Mathlib.Data.String.Basic
import QueueWorkflows.Engine.NodeQueue

/-! Fill before spill. The pool lane of a machine holds back while a machine ranked above
it still has room for a job without a model, so that light load gathers on few machines.
The gate reads the rooms from the tables; what a machine can really take depends also on
its inline lane, which the tables do not show. -/

namespace QueueWorkflows

namespace NodeQueue

/-- A worker of the project on the GPU queue that beat within the window. -/
def freshGpu (staleS : Int) (project : String) (db : Db) (beat : WorkerHeartbeat) : Bool :=
  beat.queue == "gpu" && beat.project == project &&
    decide (db.clock - seconds (max 1 staleS) < beat.lastSeen)

/-- The jobs without a model that run on the host. -/
def runningNoModel (project : String) (db : Db) (hostLabel : String) : Nat :=
  db.jobs.rows.countP fun job =>
    job.queue == .gpu && job.status == .running && job.requiredModel.isNone &&
      job.project == project && job.claimedBy == some hostLabel

/-- Ranked strictly above the machine of this host and PAR. -/
def rankedAbove (beat : WorkerHeartbeat) (par : Int) (hostLabel : String) : Bool :=
  decide (par < beat.concurrency) ||
    (beat.concurrency == par && decide (beat.hostLabel < hostLabel))

/-- The gate's free capacity. -/
def hasRoom (project : String) (db : Db) (beat : WorkerHeartbeat) : Bool :=
  decide ((runningNoModel project db beat.hostLabel : Int) < beat.concurrency)

def vlmPoolShouldDefer (hostLabel : String) (par staleS : Int) (project : String) (db : Db) : Bool :=
  db.heartbeats.any fun beat =>
    freshGpu staleS project db beat && rankedAbove beat par hostLabel && hasRoom project db beat

end NodeQueue

/-- What the pool feeder of a machine still admits: `_pool_budget` less the jobs that run. -/
def budgetLeft (project : String) (db : Db) (inlineRunning : String → Bool)
    (beat : WorkerHeartbeat) : Int :=
  max 0 (beat.concurrency - if inlineRunning beat.hostLabel then 1 else 0) -
    NodeQueue.runningNoModel project db beat.hostLabel

/-- The fresh workers of the project. -/
def fleet (staleS : Int) (project : String) (db : Db) : List WorkerHeartbeat :=
  db.heartbeats.filter (NodeQueue.freshGpu staleS project db)

/-- The machine holds back under the PAR it advertises. -/
def defers (staleS : Int) (project : String) (db : Db) (beat : WorkerHeartbeat) : Bool :=
  NodeQueue.vlmPoolShouldDefer beat.hostLabel beat.concurrency staleS project db

/-! ### Ranks -/

section Ranks

open NodeQueue (rankedAbove)

variable {first second third : WorkerHeartbeat}

/-- The order in which the fleet fills. -/
def Above (first second : WorkerHeartbeat) : Prop :=
  rankedAbove first second.concurrency second.hostLabel = true

theorem above_iff : Above first second ↔ second.concurrency < first.concurrency ∨
    first.concurrency = second.concurrency ∧ first.hostLabel < second.hostLabel := by
  simp [Above, rankedAbove]

theorem Above.irrefl : ¬ Above first first := by
  rw [above_iff]
  rintro (less | ⟨-, less⟩)
  · exact lt_irrefl _ less
  · exact lt_irrefl _ less

theorem Above.trans (early : Above first second) (late : Above second third) :
    Above first third := by
  rw [above_iff] at early late ⊢
  rcases early with more | ⟨same, before⟩
  · rcases late with more' | ⟨same', -⟩
    · exact .inl (more'.trans more)
    · exact .inl (same' ▸ more)
  · rcases late with more' | ⟨same', before'⟩
    · exact .inl (same ▸ more')
    · exact .inr ⟨same.trans same', before.trans before'⟩

/-- Machines of which neither is above the other are of one rank. -/
theorem same_rank (level : ¬ Above first second) (level' : ¬ Above second first) :
    first.concurrency = second.concurrency ∧ first.hostLabel = second.hostLabel := by
  rw [above_iff] at level level'
  push Not at level level'
  have par : first.concurrency = second.concurrency := le_antisymm level.1 level'.1
  exact ⟨par, le_antisymm (level'.2 par.symm) (level.2 par)⟩

/-- Some machine of a list is below no other of it. -/
theorem exists_top {beats : List WorkerHeartbeat} (nonempty : beats ≠ []) :
    ∃ top ∈ beats, ∀ other ∈ beats, ¬ Above other top := by
  induction beats with
  | nil => exact absurd rfl nonempty
  | cons beat rest ih =>
    by_cases alone : rest = []
    · subst alone
      refine ⟨beat, List.mem_cons_self, fun other member => ?_⟩
      rw [List.mem_singleton.mp member]
      exact Above.irrefl
    · obtain ⟨top, present, highest⟩ := ih alone
      by_cases higher : Above beat top
      · refine ⟨beat, List.mem_cons_self, fun other member above => ?_⟩
        rcases List.mem_cons.mp member with rfl | later
        · exact Above.irrefl above
        · exact highest other later (above.trans higher)
      · refine ⟨top, List.mem_cons_of_mem _ present, fun other member => ?_⟩
        rcases List.mem_cons.mp member with rfl | later
        · exact higher
        · exact highest other later

end Ranks

/-! ### The gate -/

section Gate

variable {staleS : Int} {project : String} {db : Db} {inlineRunning : String → Bool}
  {beat : WorkerHeartbeat}

theorem defers_iff : defers staleS project db beat = true ↔
    ∃ other ∈ fleet staleS project db, Above other beat ∧
      NodeQueue.hasRoom project db other = true := by
  simp only [defers, NodeQueue.vlmPoolShouldDefer, List.any_eq_true, Bool.and_eq_true, fleet,
    List.mem_filter, Above]
  constructor
  · rintro ⟨other, member, ⟨fresh, above⟩, room⟩
    exact ⟨other, ⟨member, fresh⟩, above, room⟩
  · rintro ⟨other, ⟨member, fresh⟩, above, room⟩
    exact ⟨other, member, ⟨fresh, above⟩, room⟩

/-- A machine that can take a job has room. -/
theorem hasRoom_of_budget (positive : 0 < budgetLeft project db inlineRunning beat) :
    NodeQueue.hasRoom project db beat = true := by
  simp only [budgetLeft] at positive
  simp only [NodeQueue.hasRoom, decide_eq_true_eq]
  split at positive <;> omega

/-- The first machine of the fleet, in the order it fills, that the gate counts as having
room: everyone below holds back for it. -/
def First (staleS : Int) (project : String) (db : Db) (beat : WorkerHeartbeat) : Prop :=
  NodeQueue.hasRoom project db beat = true ∧ ∀ other ∈ fleet staleS project db,
    Above other beat → NodeQueue.hasRoom project db other = false

/-- A job without a model finds a machine that neither holds back nor is full, whenever
some machine is not full: exactly when the machine everyone waits for is not one whose
inline job takes its last slot. -/
theorem fill_before_spill_iff :
    ((∃ beat ∈ fleet staleS project db, 0 < budgetLeft project db inlineRunning beat) →
      ∃ beat ∈ fleet staleS project db, 0 < budgetLeft project db inlineRunning beat ∧
        defers staleS project db beat = false) ↔
    ((∃ beat ∈ fleet staleS project db, 0 < budgetLeft project db inlineRunning beat) →
      ∀ beat ∈ fleet staleS project db, First staleS project db beat →
        0 < budgetLeft project db inlineRunning beat) := by
  constructor
  · intro served able first member ⟨room, highest⟩
    obtain ⟨beat, present, positive, claims⟩ := served able
    have below : ¬ Above beat first := by
      intro above
      have full := highest beat present above
      rw [hasRoom_of_budget positive] at full
      cases full
    have above : ¬ Above first beat := by
      intro above
      rw [defers_iff.mpr ⟨first, member, above, room⟩] at claims
      cases claims
    obtain ⟨par, host⟩ := same_rank below above
    simpa [budgetLeft, par, host] using positive
  · intro first able
    obtain ⟨beat, present, positive⟩ := able
    have rooms : (fleet staleS project db).filter (NodeQueue.hasRoom project db) ≠ [] :=
      List.ne_nil_of_mem (List.mem_filter.mpr ⟨present, hasRoom_of_budget positive⟩)
    obtain ⟨top, member, highest⟩ := exists_top rooms
    obtain ⟨listed, room⟩ := List.mem_filter.mp member
    have leads : First staleS project db top := by
      refine ⟨room, fun other other_listed above => ?_⟩
      rw [← Bool.not_eq_true]
      intro free
      exact highest other (List.mem_filter.mpr ⟨other_listed, free⟩) above
    refine ⟨top, listed, first ⟨beat, present, positive⟩ top listed leads, ?_⟩
    rw [← Bool.not_eq_true]
    intro waits
    obtain ⟨other, other_listed, above, free⟩ := defers_iff.mp waits
    rw [leads.2 other other_listed above] at free
    cases free

end Gate

/-- Two machines of PAR 1, the first of which runs an inline job. -/
def Sample.twoBoxes : Db :=
  { Db.empty with heartbeats := [
      { hostLabel := "aaa", queue := "gpu", project := "", lastSeen := 0 },
      { hostLabel := "bbb", queue := "gpu", project := "", lastSeen := 0 }] }

/-- The second machine waits for the first, which cannot take anything. -/
theorem idle_machine_waits_for_a_full_one :
    ¬ ∀ (staleS : Int) (project : String) (db : Db) (inlineRunning : String → Bool),
      (∃ beat ∈ fleet staleS project db, 0 < budgetLeft project db inlineRunning beat) →
        ∃ beat ∈ fleet staleS project db, 0 < budgetLeft project db inlineRunning beat ∧
          defers staleS project db beat = false := by
  intro served
  have starved := served 30 "" Sample.twoBoxes (· == "aaa")
  revert starved
  decide +kernel

end QueueWorkflows
