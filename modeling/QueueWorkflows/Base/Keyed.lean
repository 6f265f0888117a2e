import Mathlib.Data.List.Nodup
import Mathlib.Data.List.Induction

/-! Rows under a key. A write takes the place of the row that has its key, and a removal takes
some rows away; what is kept under a key is the last write under it that no removal has taken. -/

namespace Keyed

universe u v

variable {α : Type u} {κ : Type v} [DecidableEq κ]

inductive Move (α : Type u) where
  | write (row : α)
  | remove (gone : α → Bool)

def put (key : α → κ) (row : α) (rows : List α) : List α :=
  if rows.any (fun other => key other = key row) then
    rows.map fun other => if key other = key row then row else other
  else rows ++ [row]

def step (key : α → κ) (rows : List α) : Move α → List α
  | .write row => put key row rows
  | .remove gone => rows.filter fun row => !gone row

def rowsAfter (key : α → κ) (run : List (Move α)) : List α :=
  run.foldl (step key) []

/-- The last write of a kind, unless it has been removed. -/
def last (is : α → Bool) (run : List (Move α)) : Option α :=
  run.foldl (fun found move => match move with
    | .write row => if is row then some row else found
    | .remove gone => found.filter fun row => !gone row) none

section Put

variable {key : α → κ} {row other : α} {rows : List α}

theorem map_put {β : Type*} {field : β → κ} {image : α → β} (same : ∀ row, field (image row) = key row) :
    put field (image row) (rows.map image) = (put key row rows).map image := by
  unfold put
  have clashes : ((rows.map image).any fun other => field other = field (image row)) =
      rows.any fun other => key other = key row := by
    rw [List.any_map]
    congr 1
    funext other
    simp only [Function.comp_apply, same]
  rw [clashes]
  split
  · rw [List.map_map, List.map_map]
    apply List.map_congr_left
    intro other _
    simp only [Function.comp_apply, same]
    split <;> rfl
  · rw [List.map_append, List.map_singleton]

theorem mem_put : other ∈ put key row rows ↔
    other = row ∨ other ∈ rows ∧ key other ≠ key row := by
  unfold put
  split
  · rename_i some
    obtain ⟨stored, present, same⟩ := List.any_eq_true.mp some
    have same : key stored = key row := by simpa using same
    rw [List.mem_map]
    constructor
    · rintro ⟨before, listed, rfl⟩
      split
      · exact .inl rfl
      · rename_i different
        exact .inr ⟨listed, different⟩
    · rintro (rfl | ⟨listed, different⟩)
      · exact ⟨stored, present, if_pos same⟩
      · exact ⟨other, listed, if_neg different⟩
  · rename_i none
    have apart : ∀ other ∈ rows, key other ≠ key row := by
      intro other listed same
      exact none (List.any_eq_true.mpr ⟨other, listed, by simpa using same⟩)
    rw [List.mem_append, List.mem_singleton, or_comm]
    constructor
    · rintro (rfl | listed)
      · exact .inl rfl
      · exact .inr ⟨listed, apart other listed⟩
    · rintro (rfl | ⟨listed, -⟩)
      · exact .inl rfl
      · exact .inr listed

theorem find_put (sought : κ) : (put key row rows).find? (fun other => key other = sought) =
    if key row = sought then some row else rows.find? fun other => key other = sought := by
  by_cases own : key row = sought
  · subst own
    rw [if_pos rfl]
    cases found : (put key row rows).find? fun other => key other = key row with
    | none =>
      have missed := List.find?_eq_none.mp found row (mem_put.mpr (.inl rfl))
      simp at missed
    | some other =>
      have same : key other = key row := by simpa using List.find?_some found
      rcases mem_put.mp (List.mem_of_find?_eq_some found) with rfl | ⟨-, different⟩
      · rfl
      · exact absurd same different
  · rw [if_neg own]
    have replaced : (rows.map fun other => if key other = key row then row else other).find?
        (fun other => key other = sought) = rows.find? fun other => key other = sought := by
      induction rows with
      | nil => rfl
      | cons first rows ih =>
        rw [List.map_cons, List.find?_cons, List.find?_cons, ih]
        by_cases same : key first = key row
        · rw [if_pos same, same, decide_eq_false own]
        · rw [if_neg same]
    unfold put
    split
    · exact replaced
    · rw [List.find?_append]
      simp [own]

theorem put_keys (distinct : (rows.map key).Nodup) : ((put key row rows).map key).Nodup := by
  unfold put
  split
  · have same : (rows.map fun other => if key other = key row then row else other).map key =
        rows.map key := by
      rw [List.map_map]
      apply List.map_congr_left
      intro other _
      simp only [Function.comp_apply]
      split
      · rename_i equal
        exact equal.symm
      · rfl
    rw [same]
    exact distinct
  · rename_i none
    rw [List.map_append, List.map_singleton]
    refine distinct.append (List.nodup_singleton _) ?_
    intro found listed single
    obtain ⟨other, present, rfl⟩ := List.mem_map.mp listed
    exact none (List.any_eq_true.mpr ⟨other, present, by simpa using single⟩)

end Put

/-! ### Runs -/

section Runs

variable {key : α → κ} {is like : α → Bool} {row : α} {gone : α → Bool} {move : Move α}
  {run : List (Move α)}

theorem rowsAfter_snoc : rowsAfter key (run ++ [move]) = step key (rowsAfter key run) move := by
  simp [rowsAfter]

@[simp] theorem last_nil : last is [] = none := rfl

@[simp] theorem last_write :
    last is (run ++ [.write row]) = if is row then some row else last is run := by
  simp [last]

@[simp] theorem last_remove :
    last is (run ++ [.remove gone]) = (last is run).filter fun row => !gone row := by
  simp [last]

theorem rowsAfter_keys (run : List (Move α)) : ((rowsAfter key run).map key).Nodup := by
  induction run using List.reverseRecOn with
  | nil => exact List.nodup_nil
  | append_singleton run move ih =>
    rw [rowsAfter_snoc]
    cases move with
    | write row => exact put_keys ih
    | remove gone => exact ih.sublist (List.filter_sublist.map key)

/-- What is found is of the kind that is looked for, and was written. -/
theorem last_some (found : last is run = some row) : is row = true ∧ .write row ∈ run := by
  induction run using List.reverseRecOn with
  | nil => cases found
  | append_singleton run move ih =>
    cases move with
    | write other =>
      rw [last_write] at found
      split at found
      · cases found
        rename_i kind
        exact ⟨kind, List.mem_append_right _ (List.mem_singleton_self _)⟩
      · exact (ih found).imp_right (List.mem_append_left _)
    | remove gone =>
      rw [last_remove] at found
      exact (ih (Option.filter_eq_some_iff.mp found).1).imp_right (List.mem_append_left _)

/-- Kinds that do not differ on what is written find the same. -/
theorem last_congr (same : ∀ row, .write row ∈ run → is row = like row) :
    last is run = last like run := by
  induction run using List.reverseRecOn with
  | nil => rfl
  | append_singleton run move ih =>
    have before := ih fun row written => same row (List.mem_append_left _ written)
    cases move with
    | write row =>
      rw [last_write, last_write, before,
        same row (List.mem_append_right _ (List.mem_singleton_self _))]
    | remove gone => rw [last_remove, last_remove, before]

/-- What is kept is the last write under its key. -/
theorem mem_rowsAfter : row ∈ rowsAfter key run ↔
    last (fun other => key other = key row) run = some row := by
  induction run using List.reverseRecOn with
  | nil => simp [rowsAfter]
  | append_singleton run move ih =>
    rw [rowsAfter_snoc]
    cases move with
    | write other =>
      simp only [step, mem_put, last_write, ih, decide_eq_true_eq]
      by_cases same : key other = key row
      · simp [same, eq_comm]
      · have different : row ≠ other := by
          rintro rfl
          exact same rfl
        have back : ¬ key row = key other := fun equal => same equal.symm
        simp [same, different, back]
    | remove gone =>
      simp only [step, List.mem_filter, last_remove, ih, Option.filter_eq_some_iff]

theorem find_rowsAfter (sought : κ) : (rowsAfter key run).find? (fun row => key row = sought) =
    last (fun row => key row = sought) run := by
  cases found : (rowsAfter key run).find? fun row => key row = sought with
  | some row =>
    have own : key row = sought := by simpa using List.find?_some found
    have kept := mem_rowsAfter.mp (List.mem_of_find?_eq_some found)
    rw [own] at kept
    exact kept.symm
  | none =>
    cases kept : last (fun row => key row = sought) run with
    | none => rfl
    | some row =>
      have own : key row = sought := by simpa using (last_some kept).1
      rw [← own] at kept
      have missed := List.find?_eq_none.mp found row (mem_rowsAfter.mpr kept)
      exact absurd (by simpa using own) missed

end Runs

end Keyed
