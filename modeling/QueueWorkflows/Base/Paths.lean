import Mathlib.Data.List.Induction

/-! Texts of separated parts, and paths of segments in which one segment leads back up. -/

namespace Paths

section Split

variable {α : Type} [DecidableEq α] {separator : α} {text part : List α}

/-- No part of a split text has the separator in it. -/
theorem notMem_of_mem_splitOn (member : part ∈ text.splitOn separator) : separator ∉ part := by
  induction text generalizing part with
  | nil =>
    rw [List.splitOn_nil, List.mem_singleton] at member
    simp [member]
  | cons letter rest ih =>
    rw [List.splitOn_cons_eq_if_modifyHead] at member
    split at member
    · rcases List.mem_cons.mp member with rfl | inside
      · exact List.not_mem_nil
      · exact ih inside
    · rename_i other
      have apart : separator ≠ letter := fun same => other (by simp [same])
      cases parts : rest.splitOn separator with
      | nil => exact absurd parts (List.splitOn_ne_nil _ _)
      | cons first others =>
        rw [parts] at member ih
        rcases List.mem_cons.mp member with rfl | inside
        · have clear := ih List.mem_cons_self
          simp [apart, clear]
        · exact ih (List.mem_cons_of_mem _ inside)

/-- The parts of a text that are kept. -/
def segments (keep : List α → Bool) (separator : α) (text : List α) : List (List α) :=
  (text.splitOn separator).filter keep

/-- Where the one text ends and the other begins there is an end of a part. -/
def Joint (separator : α) (front back : List α) : Prop :=
  front = [] ∨ [separator] <:+ front ∨ [separator] <+: back

variable {keep : List α → Bool} {front back : List α} {before steps : List (List α)}

theorem segments_append_separator (empty : keep [] = false) :
    segments keep separator (front ++ [separator]) = segments keep separator front := by
  unfold segments
  rw [List.splitOn_append_cons_self, List.splitOn_nil, List.filter_append]
  simp [empty]

theorem segments_separator_append (empty : keep [] = false) :
    segments keep separator ([separator] ++ back) = segments keep separator back := by
  have split := List.splitOn_append_cons_self (a := separator) [] back
  unfold segments
  rw [List.singleton_append, ← List.nil_append (separator :: back), split, List.splitOn_nil]
  simp [empty]

/-- At an end of a part, the segments of a text are those of its two halves. -/
theorem segments_append (empty : keep [] = false) (joint : Joint separator front back) :
    segments keep separator (front ++ back) =
      segments keep separator front ++ segments keep separator back := by
  have middle (front back : List α) : segments keep separator (front ++ separator :: back) =
      segments keep separator front ++ segments keep separator back := by
    unfold segments
    rw [List.splitOn_append_cons_self, List.filter_append]
  rcases joint with rfl | ⟨front, rfl⟩ | ⟨back, rfl⟩
  · simp [segments, empty]
  · rw [segments_append_separator empty, List.append_assoc, List.singleton_append, middle]
  · rw [segments_separator_append empty, List.singleton_append, middle]

/-- Where the segments of a text split, there the text splits. -/
theorem segments_split (empty : keep [] = false) (some_steps : steps ≠ [])
    (split : segments keep separator text = before ++ steps) :
    ∃ front back, text = front ++ back ∧ Joint separator front back ∧
      segments keep separator front = before ∧ segments keep separator back = steps := by
  obtain ⟨first, last, parts, rfl, rfl⟩ := List.filter_eq_append_iff.mp split
  have clear : ∀ part ∈ first ++ last, separator ∉ part := by
    rw [← parts]
    exact fun part member => notMem_of_mem_splitOn member
  have some_last : last ≠ [] := by
    rintro rfl
    exact some_steps rfl
  have back_parts : ([separator].intercalate last).splitOn separator = last :=
    List.splitOn_intercalate separator
      (fun part member => clear part (List.mem_append_right _ member)) some_last
  by_cases none : first = []
  · subst none
    refine ⟨[], text, rfl, .inl rfl, by simp [segments, empty], ?_⟩
    unfold segments
    rw [parts, List.nil_append]
  · have front_parts : ([separator].intercalate first).splitOn separator = first :=
      List.splitOn_intercalate separator
        (fun part member => clear part (List.mem_append_left _ member)) none
    refine ⟨[separator].intercalate first, [separator] ++ [separator].intercalate last, ?_,
      .inr (.inr (List.prefix_append _ _)), ?_, ?_⟩
    · have whole : [separator].intercalate (text.splitOn separator) = text :=
        List.intercalate_splitOn separator
      rw [← whole, parts, ← front_parts, ← back_parts, ← List.splitOn_append_cons_self,
        List.intercalate_splitOn, front_parts, back_parts]
      rfl
    · unfold segments
      rw [front_parts]
    · rw [segments_separator_append empty]
      unfold segments
      rw [back_parts]

omit [DecidableEq α] in
theorem ends_of_append (ends : [separator] <:+ front ++ back) (some_back : back ≠ []) :
    [separator] <:+ back :=
  List.suffix_of_suffix_length_le ends (List.suffix_append _ _) (List.length_pos_iff.mpr some_back)

/-- The last part of a text, and what is before it. -/
theorem exists_last_part (separator : α) (text : List α) : ∃ front last, text = front ++ last ∧
    separator ∉ last ∧ (front = [] ∨ [separator] <:+ front) := by
  induction text using List.reverseRecOn with
  | nil => exact ⟨[], [], rfl, List.not_mem_nil, .inl rfl⟩
  | append_singleton text letter ih =>
    obtain ⟨front, last, rfl, clear, ends⟩ := ih
    by_cases same : letter = separator
    · subst same
      exact ⟨front ++ last ++ [letter], [], (List.append_nil _).symm, List.not_mem_nil,
        .inr (List.suffix_append _ _)⟩
    · refine ⟨front, last ++ [letter], List.append_assoc _ _ _, ?_, ends⟩
      simp [clear, Ne.symm same]

theorem getLast?_splitOn {last : List α} (clear : separator ∉ last)
    (ends : front = [] ∨ [separator] <:+ front) :
    ((front ++ last).splitOn separator).getLast? = some last := by
  rcases ends with rfl | ⟨front, rfl⟩
  · rw [List.nil_append, List.splitOn_eq_singleton clear]
    rfl
  · rw [List.append_assoc, List.singleton_append, List.splitOn_append_cons_self,
      List.splitOn_eq_singleton clear, List.getLast?_append]
    rfl

end Split

section Normal

variable {Segment : Type} [DecidableEq Segment] {up : Segment} {rooted : Bool}

/-- One more segment on those of a normal path, the last of them first. At the root there is
no way up; a relative path may begin with ways up. -/
def push (up : Segment) (rooted : Bool) (above : List Segment) (segment : Segment) :
    List Segment :=
  if segment = up then
    match above with
    | [] => if rooted then [] else [up]
    | last :: before => if last = up then up :: last :: before else before
  else segment :: above

/-- The segments of the normal form, the last first. -/
def stack (up : Segment) (rooted : Bool) (path : List Segment) : List Segment :=
  path.foldl (push up rooted) []

/-- The normal form: each way up takes back the segment before it. -/
def normal (up : Segment) (rooted : Bool) (path : List Segment) : List Segment :=
  (stack up rooted path).reverse

/-- In normal form, one path leads strictly below another. -/
def Below (up : Segment) (rooted : Bool) (root path : List Segment) : Prop :=
  ∃ rest, rest ≠ [] ∧ up ∉ rest ∧ normal up rooted path = normal up rooted root ++ rest

/-- Steps that lead this many levels down, and never back to where they begin. -/
inductive Descent (up : Segment) : List Segment → Nat → Prop
  | first {name : Segment} (proper : name ≠ up) : Descent up [name] 1
  | deeper {steps : List Segment} {levels : Nat} {name : Segment} (sofar : Descent up steps levels)
      (proper : name ≠ up) : Descent up (steps ++ [name]) (levels + 1)
  | back {steps : List Segment} {levels : Nat} (sofar : Descent up steps (levels + 2)) :
      Descent up (steps ++ [up]) (levels + 1)

variable {path root steps before names : List Segment} {levels : Nat} {segment : Segment}

theorem push_name {above : List Segment} (proper : segment ≠ up) :
    push up rooted above segment = segment :: above :=
  if_neg proper

theorem push_up {last : Segment} (proper : last ≠ up) :
    push up rooted (last :: before) up = before := by
  simp [push, proper]

theorem stack_concat : stack up rooted (path ++ [segment]) =
    push up rooted (stack up rooted path) segment := by
  simp [stack, List.foldl_append]

/-- A way up leaves names on the stack only where it takes one back. -/
theorem push_up_cases {above base : List Segment} (clear : up ∉ names) (some_names : names ≠ [])
    (same : push up rooted above up = names ++ base) :
    ∃ last, last ≠ up ∧ above = last :: (names ++ base) := by
  obtain ⟨name, rest, rfl⟩ := List.exists_cons_of_ne_nil some_names
  unfold push at same
  rw [if_pos rfl] at same
  cases above with
  | nil =>
    cases rooted with
    | true => cases same
    | false => exact absurd (List.mem_cons.mpr (.inl (List.cons.inj same).1)) clear
  | cons last others =>
    dsimp only at same
    split at same
    · exact absurd (List.mem_cons.mpr (.inl (List.cons.inj same).1)) clear
    · rename_i proper
      exact ⟨last, proper, by rw [same]⟩

/-- What the steps of a descent add to the stack. -/
theorem Descent.stack_eq (descent : Descent up steps levels) :
    ∃ names, names.length = levels ∧ up ∉ names ∧
      stack up rooted (before ++ steps) = names ++ stack up rooted before := by
  induction descent with
  | @first name proper =>
    refine ⟨[name], rfl, by simp [Ne.symm proper], ?_⟩
    rw [stack_concat, push_name proper]
    rfl
  | @deeper steps levels name _ proper ih =>
    obtain ⟨names, length, clear, same⟩ := ih
    refine ⟨name :: names, by simp [length], by simp [Ne.symm proper, clear], ?_⟩
    rw [← List.append_assoc, stack_concat, same, push_name proper]
    rfl
  | back _ ih =>
    obtain ⟨names, length, clear, same⟩ := ih
    obtain ⟨last, others, rfl⟩ := List.exists_cons_of_length_eq_add_one length
    obtain ⟨proper, rest⟩ : up ≠ last ∧ up ∉ others := by simpa using clear
    refine ⟨others, by simpa using length, rest, ?_⟩
    rw [← List.append_assoc, stack_concat, same, List.cons_append, push_up (Ne.symm proper)]

omit [DecidableEq Segment] in
theorem Descent.ne_nil (descent : Descent up steps levels) : steps ≠ [] ∧ levels ≠ 0 := by
  cases descent <;> simp

/-- A descent is away from where it begins. -/
theorem Descent.away (descent : Descent up steps levels) :
    normal up rooted (before ++ steps) ≠ normal up rooted before := by
  intro same
  obtain ⟨names, length, -, stacked⟩ : ∃ names, names.length = levels ∧ up ∉ names ∧
    stack up rooted (before ++ steps) = names ++ stack up rooted before := descent.stack_eq
  rw [normal, normal, List.reverse_inj, stacked, List.append_left_eq_self] at same
  rw [same] at length
  exact descent.ne_nil.2 length.symm

omit [DecidableEq Segment] in
/-- The beginning of a descent is one. -/
theorem Descent.left {front back : List Segment} (descent : Descent up (front ++ back) levels)
    (some_front : front ≠ []) : ∃ levels, Descent up front levels := by
  induction back using List.reverseRecOn generalizing levels with
  | nil => exact ⟨levels, List.append_nil front ▸ descent⟩
  | append_singleton back segment ih =>
    rw [← List.append_assoc] at descent
    generalize whole : front ++ back ++ [segment] = path at descent
    cases descent with
    | first =>
      have lengths := congrArg List.length whole
      have longer := List.length_pos_iff.mpr some_front
      simp only [List.length_append, List.length_cons, List.length_nil] at lengths
      omega
    | deeper sofar => exact ih ((List.append_inj' whole rfl).1 ▸ sofar)
    | back sofar => exact ih ((List.append_inj' whole rfl).1 ▸ sofar)

omit [DecidableEq Segment] in
/-- Instead of how a descent goes on, one name. -/
theorem Descent.renamed {front back : List Segment} (descent : Descent up (front ++ back) levels)
    (proper : segment ≠ up) : ∃ levels, Descent up (front ++ [segment]) levels := by
  by_cases none : front = []
  · subst none
    exact ⟨1, .first proper⟩
  · obtain ⟨levels, sofar⟩ := descent.left none
    exact ⟨levels + 1, sofar.deeper proper⟩

/-- A path that is strictly below a stack of segments has come through it, and has stayed
below it since. -/
theorem descent_of_stack {base : List Segment} (some_names : names ≠ []) (clear : up ∉ names)
    (same : stack up rooted path = names ++ base) :
    ∃ before steps, path = before ++ steps ∧ stack up rooted before = base ∧
      Descent up steps names.length := by
  induction path using List.reverseRecOn generalizing names with
  | nil => exact absurd (List.append_eq_nil_iff.mp same.symm).1 some_names
  | append_singleton path segment ih =>
    rw [stack_concat] at same
    obtain ⟨name, rest, rfl⟩ := List.exists_cons_of_ne_nil some_names
    by_cases way : segment = up
    · subst way
      obtain ⟨last, proper, pushed⟩ := push_up_cases clear some_names same
      have wider : segment ∉ last :: name :: rest := by
        rw [List.mem_cons, not_or]
        exact ⟨Ne.symm proper, clear⟩
      obtain ⟨before, steps, rfl, reached, descent⟩ := ih (List.cons_ne_nil _ _) wider pushed
      exact ⟨before, steps ++ [segment], by simp, reached, descent.back⟩
    · rw [push_name way] at same
      obtain ⟨rfl, others⟩ := List.cons.inj same
      by_cases last : rest = []
      · subst last
        exact ⟨path, [segment], rfl, others, .first way⟩
      · obtain ⟨before, steps, rfl, reached, descent⟩ :=
          ih last (fun inside => clear (List.mem_cons_of_mem _ inside)) others
        exact ⟨before, steps ++ [segment], by simp, reached, descent.deeper way⟩

/-- Strictly below a root are the paths that come through it and from then on lead down and
never back to it. -/
theorem below_iff : Below up rooted root path ↔ ∃ before steps levels, path = before ++ steps ∧
    normal up rooted before = normal up rooted root ∧ Descent up steps levels := by
  unfold Below normal
  constructor
  · rintro ⟨rest, some_rest, clear, same⟩
    have stacked : stack up rooted path = rest.reverse ++ stack up rooted root := by
      rw [← List.reverse_inj, same]
      simp
    obtain ⟨before, steps, split, reached, descent⟩ := descent_of_stack
      (by simpa using some_rest) (by simpa using clear) stacked
    exact ⟨before, steps, _, split, by rw [reached], descent⟩
  · rintro ⟨before, steps, levels, rfl, reached, descent⟩
    obtain ⟨names, length, clear, same⟩ : ∃ names, names.length = levels ∧ up ∉ names ∧
        stack up rooted (before ++ steps) = names ++ stack up rooted before := descent.stack_eq
    refine ⟨names.reverse, ?_, by simpa using clear, ?_⟩
    · intro none
      rw [List.reverse_eq_nil_iff] at none
      subst none
      cases descent <;> cases length
    · rw [same, List.reverse_append, reached]

end Normal

end Paths
