import Mathlib.Data.List.Infix

/-! Brackets that are opened and closed in any order. A counter that is floored at
zero forgets a closing bracket that closes nothing; what it shows in the end is a
matter of the last stretches of the history. -/

namespace Brackets

inductive Mark where
  | opens
  | closes
deriving DecidableEq

/-- The counter after one more mark. -/
def count (counter : Nat) : Mark → Nat
  | .opens => counter + 1
  | .closes => counter - 1

def counted (counter : Nat) (marks : List Mark) : Nat :=
  marks.foldl count counter

@[simp] theorem counted_nil (counter : Nat) : counted counter [] = counter := rfl

theorem counted_append (counter : Nat) (early late : List Mark) :
    counted counter (early ++ late) = counted (counted counter early) late :=
  List.foldl_append

/-- Over the stretch, no more than `slack` more brackets are opened than closed. -/
def Covered (slack : Nat) (stretch : List Mark) : Prop :=
  stretch.count .opens ≤ stretch.count .closes + slack

instance (slack : Nat) (stretch : List Mark) : Decidable (Covered slack stretch) :=
  inferInstanceAs (Decidable (_ ≤ _))

/-- Counted from zero, no more than `slack` brackets are open in the end exactly if that
is so over every last stretch. -/
theorem counted_le_iff {marks : List Mark} {slack : Nat} :
    counted 0 marks ≤ slack ↔ ∀ stretch, stretch <:+ marks → Covered slack stretch := by
  induction marks using List.reverseRecOn generalizing slack with
  | nil => simp [Covered]
  | append_singleton marks mark ih =>
    have last : (∀ stretch, stretch <:+ marks ++ [mark] → Covered slack stretch) ↔
        ∀ early, early <:+ marks → Covered slack (early ++ [mark]) := by
      simp only [List.suffix_concat_iff, forall_eq_or_imp]
      constructor
      · exact fun both early suffix => both.2 _ ⟨early, rfl, suffix⟩
      · refine fun each => ⟨by simp [Covered], ?_⟩
        rintro _ ⟨early, rfl, suffix⟩
        exact each early suffix
    rw [last, counted_append]
    cases mark with
    | opens =>
      cases slack with
      | zero =>
        refine iff_of_false (by simp [counted, count]) fun each => ?_
        have alone := each [] List.nil_suffix
        simp [Covered] at alone
      | succ slack =>
        rw [show counted (counted 0 marks) [.opens] ≤ slack + 1 ↔ counted 0 marks ≤ slack by
          simp [counted, count], ih]
        refine forall₂_congr fun early _ => ?_
        simp [Covered, List.count_append]
        omega
    | closes =>
      rw [show counted (counted 0 marks) [.closes] ≤ slack ↔ counted 0 marks ≤ slack + 1 by
        simp [counted, count], ih]
      refine forall₂_congr fun early _ => ?_
      simp [Covered, List.count_append]
      omega

/-- No bracket is open in the end. -/
theorem counted_eq_zero_iff {marks : List Mark} :
    counted 0 marks = 0 ↔ ∀ stretch, stretch <:+ marks → Covered 0 stretch := by
  rw [← Nat.le_zero, counted_le_iff]

end Brackets
