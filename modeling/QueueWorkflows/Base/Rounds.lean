import Mathlib.Data.Set.Subsingleton
import Mathlib.Order.Bounds.Basic
import Mathlib.Order.Interval.Set.Basic

/-! Rounds of a loop that follows a set of instants. A round reads the clock, aims at the
first instant after the reading, and ends once the clock has reached it. An instant that
goes by between a target and the next reading is never aimed at. -/

namespace Rounds

universe u

/-- What a round has read first, what it aimed at, and what it read last. -/
structure Round (τ : Type u) where
  reading : τ
  target : τ
  release : τ
deriving DecidableEq

variable {τ : Type u} [LinearOrder τ] {instants : Set τ} {start : τ} {round last : Round τ}
  {rounds : List (Round τ)}

structure Aimed (instants : Set τ) (round : Round τ) : Prop where
  least : IsLeast {instant | instant ∈ instants ∧ round.reading < instant} round.target
  reached : round.target ≤ round.release

theorem Aimed.ahead (aimed : Aimed instants round) : round.reading < round.target :=
  aimed.least.1.2

theorem Aimed.forward (aimed : Aimed instants round) : round.reading < round.release :=
  aimed.ahead.trans_le aimed.reached

/-- The rounds follow one another from `start` on. -/
structure Chain (instants : Set τ) (start : τ) (rounds : List (Round τ)) : Prop where
  aimed : ∀ round ∈ rounds, Aimed instants round
  begun : ∀ round ∈ rounds, start ≤ round.reading
  ordered : rounds.Pairwise fun early late => early.release ≤ late.reading

namespace Chain

theorem tail (chain : Chain instants start (round :: rounds)) : Chain instants start rounds where
  aimed other listed := chain.aimed other (.tail _ listed)
  begun other listed := chain.begun other (.tail _ listed)
  ordered := (List.pairwise_cons.mp chain.ordered).2

/-- No two rounds aim at the same instant. -/
theorem targets_lt (chain : Chain instants start rounds) :
    rounds.Pairwise fun early late => early.target < late.target := by
  refine chain.ordered.imp_of_mem fun {early late} here there apart => ?_
  calc early.target ≤ early.release := (chain.aimed early here).reached
    _ ≤ late.reading := apart
    _ < late.target := (chain.aimed late there).ahead

/-- Every round is over by the release of the last one. -/
theorem release_le (chain : Chain instants start rounds) (ends : rounds.getLast? = some last) :
    ∀ round ∈ rounds, round.release ≤ last.release := by
  obtain ⟨early, rfl⟩ := List.getLast?_eq_some_iff.mp ends
  intro round listed
  rcases List.mem_append.mp listed with before | here
  · have apart := (List.pairwise_append.mp chain.ordered).2.2 round before last (by simp)
    exact apart.trans (chain.aimed last (by simp)).forward.le
  · exact (List.mem_singleton.mp here ▸ le_rfl)

end Chain

/-- At most one instant goes by from the first reading of a round to that of the next, or
to the release of the last round. -/
def Steady (instants : Set τ) : List (Round τ) → Prop
  | [] => True
  | [last] => (instants ∩ Set.Ioo last.reading last.release).Subsingleton
  | round :: next :: rest =>
    (instants ∩ Set.Ioc round.reading next.reading).Subsingleton ∧ Steady instants (next :: rest)

theorem steady_empty : Steady (∅ : Set τ) rounds := by
  induction rounds with
  | nil => trivial
  | cons round rest ih =>
    cases rest with
    | nil => simp [Steady]
    | cons next rest => exact ⟨by simp, ih⟩

theorem covered_after_reading (chain : Chain instants start (round :: rounds))
    (ends : (round :: rounds).getLast? = some last) :
    (∀ instant ∈ instants, round.reading < instant → instant < last.release →
      instant ∈ (round :: rounds).map Round.target) ↔ Steady instants (round :: rounds) := by
  induction rounds generalizing round with
  | nil =>
    obtain rfl : round = last := by simpa using ends
    have aimed := chain.aimed round (by simp)
    constructor
    · rintro covered first ⟨listed₁, inside₁⟩ second ⟨listed₂, inside₂⟩
      have same₁ := covered first listed₁ inside₁.1 inside₁.2
      have same₂ := covered second listed₂ inside₂.1 inside₂.2
      rw [List.map_singleton, List.mem_singleton] at same₁ same₂
      rw [same₁, same₂]
    · intro steady instant listed after before
      have first := aimed.least.2 ⟨listed, after⟩
      have target : round.target ∈ instants ∩ Set.Ioo round.reading round.release :=
        ⟨aimed.least.1.1, aimed.ahead, first.trans_lt before⟩
      rw [List.map_singleton, List.mem_singleton]
      exact steady ⟨listed, after, before⟩ target
  | cons next rest ih =>
    have ends' : (next :: rest).getLast? = some last := by simpa using ends
    have aimed := chain.aimed round (by simp)
    have aims := chain.aimed next (by simp)
    have apart : round.release ≤ next.reading :=
      (List.pairwise_cons.mp chain.ordered).1 next (by simp)
    have passed : round.target ≤ next.reading := aimed.reached.trans apart
    have later : ∀ instant ∈ (next :: rest).map Round.target, next.reading < instant := by
      intro instant listed
      obtain ⟨other, member, rfl⟩ := List.mem_map.mp listed
      rcases List.mem_cons.mp member with rfl | behind
      · exact aims.ahead
      · have order := (List.pairwise_cons.mp chain.tail.ordered).1 other behind
        exact (aims.forward.trans_le order).trans (chain.aimed other (by simp [behind])).ahead
    have open' : next.reading < last.release :=
      aims.forward.trans_le (chain.tail.release_le ends' next (by simp))
    rw [Steady, ← ih chain.tail ends']
    constructor
    · intro covered
      constructor
      · rintro first ⟨listed₁, after₁, before₁⟩ second ⟨listed₂, after₂, before₂⟩
        have targeted : ∀ instant ∈ instants, round.reading < instant →
            instant ≤ next.reading → instant = round.target := by
          intro instant listed after before
          have aim := covered instant listed after (before.trans_lt open')
          rw [List.map_cons, List.mem_cons] at aim
          exact aim.resolve_right fun behind => (later instant behind).not_ge before
        rw [targeted first listed₁ after₁ before₁, targeted second listed₂ after₂ before₂]
      · intro instant listed after before
        have aim := covered instant listed (aimed.ahead.trans_le (passed.trans after.le)) before
        rw [List.map_cons, List.mem_cons] at aim
        exact aim.resolve_left fun same => after.not_ge (same ▸ passed)
    · rintro ⟨steady, covered⟩ instant listed after before
      rw [List.map_cons, List.mem_cons]
      rcases le_or_gt instant next.reading with here | there
      · left
        exact steady ⟨listed, after, here⟩ ⟨aimed.least.1.1, aimed.ahead, passed⟩
      · right
        exact covered instant listed there before

/-- **What the rounds miss.** Every instant from the start to the last release is aimed at
exactly if none goes by before the first reading, and at most one from there to each
reading that follows. -/
theorem covered_iff (chain : Chain instants start rounds) :
    (∀ last, rounds.getLast? = some last → ∀ instant ∈ instants, start < instant →
      instant < last.release → instant ∈ rounds.map Round.target) ↔
    (∀ first, rounds.head? = some first → instants ∩ Set.Ioc start first.reading = ∅) ∧
      Steady instants rounds := by
  cases rounds with
  | nil => simp [Steady]
  | cons round rest =>
    obtain ⟨last, ends⟩ : ∃ last, (round :: rest).getLast? = some last :=
      ⟨_, List.getLast?_eq_some_getLast (by simp)⟩
    have open' : round.reading < last.release :=
      (chain.aimed round (by simp)).forward.trans_le (chain.release_le ends round (by simp))
    rw [← covered_after_reading chain ends]
    constructor
    · intro covered
      refine ⟨fun first head => ?_, fun instant listed after before =>
        covered last ends instant listed ((chain.begun round (by simp)).trans_lt after) before⟩
      obtain rfl : round = first := by simpa using head
      rw [Set.eq_empty_iff_forall_notMem]
      rintro instant ⟨listed, after, before⟩
      have aim := covered last ends instant listed after (before.trans_lt open')
      obtain ⟨other, member, rfl⟩ := List.mem_map.mp aim
      rcases List.mem_cons.mp member with rfl | behind
      · exact (chain.aimed other (by simp)).ahead.not_ge before
      · have order := (List.pairwise_cons.mp chain.ordered).1 other behind
        have ahead := (chain.aimed other (by simp [behind])).ahead
        exact (((chain.aimed round (by simp)).forward.trans_le order).trans ahead).not_ge before
    · rintro ⟨clear, covered⟩ last' ends' instant listed after before
      obtain rfl : last = last' := Option.some.inj (ends.symm.trans ends')
      refine covered instant listed ?_ before
      by_contra early
      have none := clear round rfl
      rw [Set.eq_empty_iff_forall_notMem] at none
      exact none instant ⟨listed, after, not_lt.mp early⟩

end Rounds
