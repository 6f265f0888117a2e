import Mathlib.Data.List.Sort

/-! Lists kept in an order, several of them in one: a part of such a list is kept in
the order too, and what is put in outside the part does not show in it. -/

namespace Ranked

universe u

variable {α : Type u} {rank : α → α → Prop} [DecidableRel rank] {part : α → Bool}
  {item : α} {items : List α}

/-- An item outside a part does not show in it. -/
theorem filter_insert_outside (outside : part item = false) :
    (items.orderedInsert rank item).filter part = items.filter part := by
  induction items with
  | nil => simp [outside]
  | cons first rest ih =>
    rw [List.orderedInsert_cons]
    split
    · rw [List.filter_cons_of_neg (by simp [outside])]
    · rw [List.filter_cons, List.filter_cons, ih]

/-- What is dropped outside a part is not seen inside it. -/
theorem filter_kept {keeps : α → Bool} (kept : ∀ item, part item = true → keeps item = true) :
    (items.filter keeps).filter part = items.filter part := by
  rw [List.filter_filter]
  apply List.filter_congr
  intro item _
  cases inside : part item with
  | true => simp [kept item inside]
  | false => simp

/-- An item put into an empty part is all there is in it. -/
theorem filter_insert_alone (inside : part item = true) (alone : items.filter part = []) :
    (items.orderedInsert rank item).filter part = [item] := by
  have perm := (List.perm_orderedInsert rank item items).filter part
  rw [List.filter_cons_of_pos inside, alone] at perm
  exact List.perm_singleton.mp perm

section Sorted

variable [Std.Total rank] [IsTrans α rank]

/-- What sorting puts first ranks before everything. -/
theorem first_of_sorted (first : (items.insertionSort rank).head? = some item) :
    item ∈ items ∧ ∀ other ∈ items, rank item other := by
  have sorted := List.pairwise_insertionSort rank items
  cases arranged : items.insertionSort rank with
  | nil =>
    rw [arranged] at first
    cases first
  | cons least rest =>
    rw [arranged] at first sorted
    obtain rfl : least = item := by simpa using first
    have listed : ∀ other, other ∈ items ↔ other = least ∨ other ∈ rest := by
      intro other
      rw [← List.mem_insertionSort rank, arranged, List.mem_cons]
    refine ⟨(listed least).mpr (.inl rfl), fun other present => ?_⟩
    rcases (listed other).mp present with rfl | later
    · exact (Std.Total.total other other).elim id id
    · exact (List.pairwise_cons.mp sorted).1 other later

omit [Std.Total rank] in
/-- A property of pairs survives an insertion, if the new item has it with what it comes
to stand behind and with what it comes to stand before. -/
theorem pairwise_insert {holds : α → α → Prop} (sorted : items.Pairwise rank)
    (kept : items.Pairwise holds) (behind : ∀ other ∈ items, ¬ rank item other → holds other item)
    (before : ∀ other ∈ items, rank item other → holds item other) :
    (items.orderedInsert rank item).Pairwise holds := by
  induction items with
  | nil => simp
  | cons first rest ih =>
    obtain ⟨least, sorted⟩ := List.pairwise_cons.mp sorted
    obtain ⟨head, kept⟩ := List.pairwise_cons.mp kept
    rw [List.orderedInsert_cons]
    split
    · rename_i low
      refine List.pairwise_cons.mpr ⟨fun other present => ?_, List.pairwise_cons.mpr ⟨head, kept⟩⟩
      rcases List.mem_cons.mp present with rfl | later
      · exact before other List.mem_cons_self low
      · exact before other (List.mem_cons_of_mem _ later) (IsTrans.trans _ _ _ low (least other later))
    · rename_i high
      refine List.pairwise_cons.mpr ⟨fun other present => ?_, ih sorted kept
        (fun other later => behind other (List.mem_cons_of_mem _ later))
        fun other later => before other (List.mem_cons_of_mem _ later)⟩
      rcases (List.mem_orderedInsert rank).mp present with rfl | later
      · exact behind first List.mem_cons_self high
      · exact head other later

end Sorted

end Ranked
