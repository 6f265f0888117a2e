import Mathlib.Data.List.Nodup
import Mathlib.Order.Basic
import Mathlib.Order.Nat

/-! Tables to which rows are only added. Every row has a number from a sequence and an
owner; a statement may change rows in place and append new ones under fresh numbers. -/

namespace Relational

universe u v

variable {α : Type u} {κ : Type v} {number : α → Nat} {owner : α → κ} {mine : κ → Prop}
  {first last : Nat} {before after : List α}

/-- Only rows of the owners in `mine` are changed or added; a row keeps its number and
its owner, and the numbers of new rows lie in the range the sequence moved over. -/
def Grows (number : α → Nat) (owner : α → κ) (mine : κ → Prop) (first last : Nat)
    (before after : List α) : Prop :=
  ∃ (change : α → α) (fresh : List α), after = before.map change ++ fresh ∧
    (∀ row, number (change row) = number row ∧ owner (change row) = owner row ∧
      (¬ mine (owner row) → change row = row)) ∧
    (∀ row ∈ fresh, first ≤ number row ∧ number row < last ∧ mine (owner row)) ∧
    (fresh.map number).Nodup ∧ first ≤ last

namespace Grows

theorem refl (mine : κ → Prop) (first : Nat) (rows : List α) :
    Grows number owner mine first first rows rows :=
  ⟨id, [], by simp, fun _ => ⟨rfl, rfl, fun _ => rfl⟩, by simp, by simp, le_rfl⟩

/-- An update in place. -/
theorem of_map {change : α → α} (rows : List α)
    (keeps : ∀ row, number (change row) = number row ∧ owner (change row) = owner row)
    (spares : ∀ row ∈ rows, ¬ mine (owner row) → change row = row) :
    Grows number owner mine first first rows (rows.map change) := by
  classical
  refine ⟨fun row => if mine (owner row) then change row else row, [], ?_, fun row => ?_, by simp,
    by simp, le_rfl⟩
  · rw [List.append_nil]
    apply List.map_congr_left
    intro row member
    split
    · rfl
    · rename_i foreign
      exact spares row member foreign
  · by_cases own : mine (owner row)
    · simp only [if_pos own]
      exact ⟨(keeps row).1, (keeps row).2, fun foreign => absurd own foreign⟩
    · simp [own]

/-- One new row. -/
theorem of_append {row : α} (rows : List α) (numbered : number row = first)
    (own : mine (owner row)) :
    Grows number owner mine first (first + 1) rows (rows ++ [row]) := by
  refine ⟨id, [row], by simp, fun _ => ⟨rfl, rfl, fun _ => rfl⟩, ?_, by simp, Nat.le_succ _⟩
  intro other member
  rw [List.mem_singleton.mp member, numbered]
  exact ⟨le_rfl, Nat.lt_succ_self _, own⟩

theorem mono {wider : κ → Prop} (grows : Grows number owner mine first last before after)
    (implies : ∀ key, mine key → wider key) :
    Grows number owner wider first last before after := by
  obtain ⟨change, fresh, rows, keeps, numbers, apart, ordered⟩ := grows
  refine ⟨change, fresh, rows, fun row => ?_, fun row member => ?_, apart, ordered⟩
  · obtain ⟨same, owned, spares⟩ := keeps row
    exact ⟨same, owned, fun foreign => spares fun own => foreign (implies _ own)⟩
  · obtain ⟨low, high, own⟩ := numbers row member
    exact ⟨low, high, implies _ own⟩

theorem trans {middle : Nat} {between : List α}
    (early : Grows number owner mine first middle before between)
    (late : Grows number owner mine middle last between after) :
    Grows number owner mine first last before after := by
  obtain ⟨change, fresh, rfl, keeps, numbers, apart, ordered⟩ := early
  obtain ⟨change', fresh', rfl, keeps', numbers', apart', ordered'⟩ := late
  have renumbered : (fresh.map change').map number = fresh.map number := by
    rw [List.map_map]
    exact List.map_congr_left fun row _ => (keeps' row).1
  refine ⟨change' ∘ change, fresh.map change' ++ fresh', by simp, fun row => ?_, ?_, ?_,
    ordered.trans ordered'⟩
  · obtain ⟨same, owned, spares⟩ := keeps row
    obtain ⟨same', owned', spares'⟩ := keeps' (change row)
    refine ⟨same'.trans same, owned'.trans owned, fun foreign => ?_⟩
    simp only [Function.comp_apply]
    rw [spares foreign]
    exact (keeps' row).2.2 foreign
  · intro row member
    rcases List.mem_append.mp member with old | new
    · obtain ⟨source, present, rfl⟩ := List.mem_map.mp old
      obtain ⟨low, high, own⟩ := numbers source present
      obtain ⟨same, owned, -⟩ := keeps' source
      rw [same, owned]
      exact ⟨low, high.trans_le ordered', own⟩
    · obtain ⟨low, high, own⟩ := numbers' row new
      exact ⟨ordered.trans low, high, own⟩
  · rw [List.map_append, renumbered]
    refine List.Nodup.append apart apart' ?_
    intro found early late
    obtain ⟨row, member, rfl⟩ := List.mem_map.mp early
    obtain ⟨row', member', same⟩ := List.mem_map.mp late
    have high := (numbers row member).2.1
    have low := (numbers' row' member').1
    omega

/-- A row is an old one, or numbered in the range of the new ones. -/
theorem mem (grows : Grows number owner mine first last before after) {row : α}
    (member : row ∈ after) :
    (∃ old ∈ before, number old = number row ∧ owner old = owner row) ∨
      first ≤ number row ∧ number row < last ∧ mine (owner row) := by
  obtain ⟨change, fresh, rfl, keeps, numbers, -, -⟩ := grows
  rcases List.mem_append.mp member with old | new
  · obtain ⟨source, present, rfl⟩ := List.mem_map.mp old
    exact .inl ⟨source, present, (keeps source).1.symm, (keeps source).2.1.symm⟩
  · exact .inr (numbers row new)

theorem numbered (grows : Grows number owner mine first last before after)
    (below : ∀ row ∈ before, number row < first) : ∀ row ∈ after, number row < last := by
  intro row member
  have ordered : first ≤ last := by
    obtain ⟨_, _, _, _, _, _, ordered⟩ := grows
    exact ordered
  rcases grows.mem member with ⟨old, present, same, -⟩ | ⟨-, high, -⟩
  · exact same ▸ (below old present).trans_le ordered
  · exact high

theorem nodup (grows : Grows number owner mine first last before after)
    (below : ∀ row ∈ before, number row < first) (apart : (before.map number).Nodup) :
    (after.map number).Nodup := by
  obtain ⟨change, fresh, rfl, keeps, numbers, apart', -⟩ := grows
  have same : (before.map change).map number = before.map number := by
    rw [List.map_map]
    exact List.map_congr_left fun row _ => (keeps row).1
  rw [List.map_append, same]
  refine List.Nodup.append apart apart' ?_
  intro found early late
  obtain ⟨row, member, rfl⟩ := List.mem_map.mp early
  obtain ⟨row', member', equal⟩ := List.mem_map.mp late
  have high := below row member
  have low := (numbers row' member').1
  omega

/-- The rows of owners that are none of `mine` are the same as before. -/
theorem filter_eq (grows : Grows number owner mine first last before after) (keep : κ → Bool)
    (foreign : ∀ key, keep key = true → ¬ mine key) :
    after.filter (fun row => keep (owner row)) = before.filter fun row => keep (owner row) := by
  obtain ⟨change, fresh, rfl, keeps, numbers, -, -⟩ := grows
  have dropped : fresh.filter (fun row => keep (owner row)) = [] := by
    refine List.filter_eq_nil_iff.mpr fun row member kept => ?_
    exact foreign _ kept (numbers row member).2.2
  rw [List.filter_append, dropped, List.append_nil, List.filter_map]
  have selects : (fun row => keep (owner row)) ∘ change = fun row => keep (owner row) := by
    funext row
    simp only [Function.comp_apply, (keeps row).2.1]
  rw [selects]
  conv_rhs => rw [← List.map_id (before.filter _)]
  apply List.map_congr_left
  intro row member
  exact (keeps row).2.2 (foreign _ (List.mem_filter.mp member).2)

end Grows

end Relational
