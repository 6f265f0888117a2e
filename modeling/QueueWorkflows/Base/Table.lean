import Mathlib.Data.List.Nodup
import Mathlib.Data.List.Pairwise

/-! Relational tables under a uniqueness constraint. The constraint is a field,
so a table that breaks it cannot be built: an insert is refused when the new
row clashes, and an update may only use a change that leaves the key alone. -/

namespace Relational

universe u v

structure Table (α : Type u) {κ : Type v} (key : α → κ) (clash : κ → κ → Prop) where
  rows : List α
  unique : (rows.map key).Pairwise fun first second => ¬ clash first second

variable {α : Type u} {κ : Type v} {key : α → κ} {clash : κ → κ → Prop}

def Table.empty : Table α key clash := ⟨[], by simp⟩

/-- `UPDATE … SET change WHERE selects`. -/
def Table.update (table : Table α key clash) (selects : α → Bool) (change : α → α)
    (keeps : ∀ row, key (change row) = key row) : Table α key clash where
  rows := table.rows.map fun row => if selects row then change row else row
  unique := by
    have same : (table.rows.map fun row => if selects row then change row else row).map key =
        table.rows.map key := by
      rw [List.map_map]
      apply List.map_congr_left
      intro row _
      simp only [Function.comp_apply]
      split
      · exact keeps row
      · rfl
    rw [same]
    exact table.unique

/-- `DELETE … WHERE selects`. -/
def Table.delete (table : Table α key clash) (selects : α → Bool) : Table α key clash where
  rows := table.rows.filter fun row => !selects row
  unique := table.unique.sublist (List.filter_sublist.map key)

/-- `INSERT`, refused when the new key clashes with one already stored. -/
def Table.insert? [DecidableRel clash] (table : Table α key clash) (row : α) :
    Option (Table α key clash) :=
  if apart : ∀ other ∈ table.rows, ¬ clash (key other) (key row) then
    some ⟨table.rows ++ [row], by
      rw [List.map_append, List.pairwise_append]
      refine ⟨table.unique, by simp, ?_⟩
      intro first present second last
      obtain ⟨other, member, rfl⟩ := List.mem_map.mp present
      simp only [List.map_cons, List.map_nil, List.mem_singleton] at last
      subst last
      exact apart other member⟩
  else none

@[simp] theorem Table.rows_empty : (Table.empty : Table α key clash).rows = [] := rfl

@[simp] theorem Table.rows_update (table : Table α key clash) (selects : α → Bool)
    (change : α → α) (keeps : ∀ row, key (change row) = key row) :
    (table.update selects change keeps).rows =
      table.rows.map fun row => if selects row then change row else row := rfl

@[simp] theorem Table.rows_delete (table : Table α key clash) (selects : α → Bool) :
    (table.delete selects).rows = table.rows.filter fun row => !selects row := rfl

theorem Table.rows_insert? [DecidableRel clash] {table result : Table α key clash} {row : α}
    (inserted : table.insert? row = some result) : result.rows = table.rows ++ [row] := by
  unfold Table.insert? at inserted
  split at inserted
  · cases inserted
    rfl
  · cases inserted

theorem Table.apart_of_insert? [DecidableRel clash] {table result : Table α key clash} {row : α}
    (inserted : table.insert? row = some result) :
    ∀ other ∈ table.rows, ¬ clash (key other) (key row) := by
  unfold Table.insert? at inserted
  split at inserted
  · assumption
  · cases inserted

theorem Table.insert?_of_apart [DecidableRel clash] {table : Table α key clash} {row : α}
    (apart : ∀ other ∈ table.rows, ¬ clash (key other) (key row)) :
    ∃ result, table.insert? row = some result :=
  ⟨_, dif_pos apart⟩

/-- An update is seen through a lookup by key. -/
theorem Table.find?_update [DecidableEq κ] (table : Table α key clash) (selects : α → Bool)
    (change : α → α) (keeps : ∀ row, key (change row) = key row) (sought : κ) :
    (table.update selects change keeps).rows.find? (fun row => key row = sought) =
      (table.rows.find? fun row => key row = sought).map fun row =>
        if selects row then change row else row := by
  rw [rows_update, List.find?_map]
  congr 2
  funext row
  simp only [Function.comp_apply]
  split
  · rw [keeps]
  · rfl

theorem Table.find?_of_insert? [DecidableEq κ] {table result : Table α key Eq} {row : α}
    (inserted : table.insert? row = some result) :
    (table.rows.find? fun other => key other = key row) = none := by
  rw [List.find?_eq_none]
  intro other present
  simpa using apart_of_insert? inserted other present

/-- An insert is seen only through a lookup by its own key, where there was nothing. -/
theorem Table.find?_insert? [DecidableEq κ] {table result : Table α key Eq} {row : α}
    (inserted : table.insert? row = some result) (sought : κ) :
    result.rows.find? (fun other => key other = sought) =
      if key row = sought then some row else table.rows.find? fun other => key other = sought := by
  rw [rows_insert? inserted, List.find?_append]
  split
  · rename_i same
    subst same
    simp [find?_of_insert? inserted]
  · rename_i different
    simp [different]

/-- Two stored rows whose keys clash are the same row. -/
theorem Table.eq_of_clash (table : Table α key clash)
    (symmetric : ∀ {first second}, clash first second → clash second first)
    {first second : α} (present₁ : first ∈ table.rows) (present₂ : second ∈ table.rows)
    (clashes : clash (key first) (key second)) : first = second := by
  have apart : table.rows.Pairwise fun a b => ¬ clash (key a) (key b) :=
    List.pairwise_map.mp table.unique
  have mirrored : Std.Symm fun a b => ¬ clash (key a) (key b) :=
    ⟨fun _ _ separated back => separated (symmetric back)⟩
  by_contra different
  exact apart.forall present₁ present₂ different clashes

/-- A lookup by the key of a stored row finds that row. -/
theorem Table.find?_of_mem [DecidableEq κ] {table : Table α key Eq} {row : α}
    (present : row ∈ table.rows) :
    (table.rows.find? fun other => key other = key row) = some row := by
  cases found : table.rows.find? fun other => key other = key row with
  | none =>
    have missed := List.find?_eq_none.mp found row present
    simp at missed
  | some other =>
    have same : key other = key row := by simpa using List.find?_some found
    rw [table.eq_of_clash Eq.symm (List.mem_of_find?_eq_some found) present same]

/-! ### Upserts -/

theorem Table.nodup (table : Table α key Eq) : table.rows.Nodup :=
  List.Nodup.of_map key table.unique

/-- `INSERT … ON CONFLICT (key) DO UPDATE SET change`. -/
def Table.upsert [DecidableEq κ] (table : Table α key Eq) (row : α) (change : α → α)
    (keeps : ∀ row, key (change row) = key row) : Table α key Eq :=
  match table.insert? row with
  | some inserted => inserted
  | none => table.update (fun other => key other = key row) change keeps

section Upsert

variable [DecidableEq κ] {table : Table α key Eq} {row : α} {change : α → α}
  {keeps : ∀ row, key (change row) = key row}

/-- An upsert is seen only through a lookup by its own key. -/
theorem Table.find?_upsert (sought : κ) :
    (table.upsert row change keeps).rows.find? (fun other => key other = sought) =
      if key row = sought then
        some (((table.rows.find? fun other => key other = sought).map change).getD row)
      else table.rows.find? fun other => key other = sought := by
  unfold upsert
  cases inserted : table.insert? row with
  | some result =>
    simp only [find?_insert? inserted sought]
    split
    · rename_i same
      subst same
      simp [find?_of_insert? inserted]
    · rfl
  | none =>
    simp only [find?_update]
    cases found : table.rows.find? fun other => key other = sought with
    | some stored =>
      have own : key stored = sought := by simpa using List.find?_some found
      subst own
      by_cases same : key row = key stored <;> simp [same, eq_comm]
    | none =>
      split
      · rename_i same
        subst same
        have apart : ∀ other ∈ table.rows, ¬ key other = key row := by
          simpa [List.find?_eq_none] using found
        obtain ⟨result, done⟩ := insert?_of_apart apart
        rw [inserted] at done
        cases done
      · rfl

theorem Table.mem_iff_find? {stored : α} : stored ∈ table.rows ↔
    (table.rows.find? fun other => key other = key stored) = some stored :=
  ⟨find?_of_mem, List.mem_of_find?_eq_some⟩

/-- A row with another key stays, and no other such row comes. -/
theorem Table.mem_upsert_of_ne {other : α} (different : key other ≠ key row) :
    other ∈ (table.upsert row change keeps).rows ↔ other ∈ table.rows := by
  rw [mem_iff_find?, mem_iff_find?, find?_upsert, if_neg different.symm]

/-- Up to the order of the rows, an upsert takes the row of the key out and puts one in. -/
theorem Table.upsert_perm : (table.upsert row change keeps).rows.Perm
    (table.rows.filter (fun other => key other ≠ key row) ++
      [((table.rows.find? fun other => key other = key row).map change).getD row]) := by
  have own : key (((table.rows.find? fun other => key other = key row).map change).getD row) =
      key row := by
    cases found : table.rows.find? fun other => key other = key row with
    | none => rfl
    | some stored => simpa [keeps] using List.find?_some found
  refine (List.perm_ext_iff_of_nodup (nodup _) ?_).mpr fun other => ?_
  · refine (table.nodup.filter _).append (by simp) ?_
    intro other kept last
    rw [List.mem_singleton] at last
    subst last
    simp [own] at kept
  · simp only [List.mem_append, List.mem_filter, decide_eq_true_eq, List.mem_singleton]
    by_cases same : key other = key row
    · rw [mem_iff_find?, find?_upsert, if_pos same.symm, same]
      simp [eq_comm]
    · have apart : other ≠ ((table.rows.find? fun other => key other = key row).map
          change).getD row := fun equal => same (equal ▸ own)
      simp [mem_upsert_of_ne same, same, apart]

end Upsert

end Relational
