import Mathlib.Data.List.Perm.Basic
import Mathlib.Data.List.Sort

/-! Reading a log by its numbers. An entry is given a number before it becomes visible, and
a reader asks for the entries above the highest number it has seen, a page at a time. It
misses none as long as no page goes past a number that is still in flight. -/

namespace Sequenced

variable {α : Type} {seq : α → Nat}

/-- The entries above `since`, in the order of their numbers. -/
def unread (seq : α → Nat) (since : Nat) (log : List α) : List α :=
  (log.filter fun entry => since < seq entry).insertionSort fun first second =>
    seq first ≤ seq second

/-- `polls` counts the pages since the log last grew. -/
structure Reader (α : Type) where
  since : Nat := 0
  received : List α := []
  polls : Nat := 0

/-- The highest number the reader has seen, with those of a page. -/
def highest (seq : α → Nat) (since : Nat) (page : List α) : Nat :=
  page.foldl (fun top entry => max top (seq entry)) since

def Reader.receive (seq : α → Nat) (page : List α) (reader : Reader α) : Reader α where
  since := highest seq reader.since page
  received := reader.received ++ page
  polls := reader.polls + 1

theorem le_highest (since : Nat) (page : List α) : since ≤ highest seq since page := by
  induction page generalizing since with
  | nil => exact le_rfl
  | cons entry page ih => exact (le_max_left ..).trans (ih _)

theorem seq_le_highest {since : Nat} {page : List α} {entry : α} (listed : entry ∈ page) :
    seq entry ≤ highest seq since page := by
  induction page generalizing since with
  | nil => cases listed
  | cons first page ih =>
    rcases List.mem_cons.mp listed with rfl | later
    · exact (le_max_right ..).trans (le_highest _ page)
    · exact ih later

theorem highest_lt {since bound : Nat} {page : List α} (below : since < bound)
    (all : ∀ entry ∈ page, seq entry < bound) : highest seq since page < bound := by
  induction page generalizing since with
  | nil => exact below
  | cons first page ih =>
    apply ih (max_lt below (all first (.head _)))
    intro entry listed
    exact all entry (.tail _ listed)

section Unread

variable {since : Nat} {log : List α}

theorem mem_unread {entry : α} : entry ∈ unread seq since log ↔ entry ∈ log ∧ since < seq entry := by
  rw [unread, List.mem_insertionSort, List.mem_filter, decide_eq_true_eq]

theorem length_unread :
    (unread seq since log).length = (log.filter fun entry => since < seq entry).length :=
  List.length_insertionSort ..

/-- A log that is in order is read in its own order. -/
theorem unread_of_sorted (sorted : log.Pairwise fun first second => seq first < seq second) :
    unread seq since log = log.filter fun entry => since < seq entry :=
  ((sorted.filter _).imp Nat.le_of_lt).insertionSort_eq

theorem unread_sorted (distinct : (log.map seq).Nodup) :
    (unread seq since log).Pairwise fun first second => seq first < seq second := by
  have ordered : (unread seq since log).Pairwise fun first second => seq first ≤ seq second :=
    haveI : Std.Total fun first second : α => seq first ≤ seq second := ⟨fun _ _ => Nat.le_total ..⟩
    haveI : IsTrans α fun first second => seq first ≤ seq second := ⟨fun _ _ _ => Nat.le_trans⟩
    List.pairwise_insertionSort _ _
  have apart : (unread seq since log).Pairwise fun first second => seq first ≠ seq second := by
    have filtered : ((log.filter fun entry => since < seq entry).map seq).Nodup :=
      distinct.sublist (List.filter_sublist.map seq)
    have permuted := ((List.perm_insertionSort (fun first second => seq first ≤ seq second)
      (log.filter fun entry => since < seq entry)).map seq).nodup_iff.mpr filtered
    exact List.pairwise_map.mp permuted
  exact ordered.imp₂ (fun _ _ le ne => lt_of_le_of_ne le ne) apart

variable {limit : Nat}

/-- What is not above the new mark was read before, or is on the page. -/
theorem mem_page (distinct : (log.map seq).Nodup) {entry : α} (listed : entry ∈ log)
    (marked : seq entry ≤ highest seq since ((unread seq since log).take limit)) :
    seq entry ≤ since ∨ entry ∈ (unread seq since log).take limit := by
  by_contra missed
  push Not at missed
  obtain ⟨above, absent⟩ := missed
  have due : entry ∈ unread seq since log := mem_unread.mpr ⟨listed, above⟩
  rw [← List.take_append_drop limit (unread seq since log), List.mem_append] at due
  have left := due.resolve_left absent
  have sorted : (unread seq since log).Pairwise _ := unread_sorted distinct
  rw [← List.take_append_drop limit (unread seq since log)] at sorted
  have beyond := (List.pairwise_append.mp sorted).2.2
  exact absurd (highest_lt above fun other taken => beyond other taken entry left)
    (Nat.not_lt.mpr marked)

/-- A page takes its limit off what is due. -/
theorem length_unread_page :
    (unread seq (highest seq since ((unread seq since log).take limit)) log).length ≤
      (unread seq since log).length - limit := by
  let top := highest seq since ((unread seq since log).take limit)
  have narrowed : (log.filter fun entry => top < seq entry) =
      (log.filter fun entry => since < seq entry).filter fun entry => top < seq entry := by
    rw [List.filter_filter]
    refine List.filter_congr fun entry _ => ?_
    have below : since ≤ top := le_highest ..
    by_cases above : top < seq entry
    · simp [above, below.trans_lt above]
    · simp [above]
  have counted : (unread seq top log).length =
      ((unread seq since log).filter fun entry => top < seq entry).length := by
    rw [length_unread, narrowed]
    exact ((List.perm_insertionSort _ _).filter _).length_eq.symm
  have page : ((unread seq since log).take limit).filter (fun entry => top < seq entry) = [] := by
    rw [List.filter_eq_nil_iff]
    intro entry taken
    simpa using seq_le_highest taken
  calc (unread seq top log).length
      = ((unread seq since log).filter fun entry => top < seq entry).length := counted
    _ = (((unread seq since log).drop limit).filter fun entry => top < seq entry).length := by
      conv_lhs => rw [← List.take_append_drop limit (unread seq since log)]
      rw [List.filter_append, page, List.nil_append]
    _ ≤ ((unread seq since log).drop limit).length := List.length_filter_le ..
    _ = (unread seq since log).length - limit := List.length_drop ..

end Unread

/-! ### What holds between a log and its reader -/

/-- `issued` is the highest number given out; `flight` are the numbers of entries that are
not visible yet. -/
structure Tracked (seq : α → Nat) (limit issued : Nat) (flight : List Nat) (log : List α)
    (reader : Reader α) : Prop where
  distinct : (flight ++ log.map seq).Nodup
  within : ∀ entry ∈ log, seq entry ≤ issued
  ahead : ∀ number ∈ flight, reader.since < number ∧ number ≤ issued
  since : reader.since ≤ issued
  behind : ∀ entry ∈ log, seq entry ≤ reader.since → entry ∈ reader.received
  due : (unread seq reader.since log).length ≤ log.length - limit * reader.polls

namespace Tracked

variable {limit issued number : Nat} {flight fewer : List Nat} {log : List α} {reader : Reader α}
  {entry : α}

/-- Numbers are lost, or go to others. -/
theorem lose (tracked : Tracked seq limit issued flight log reader) (more : issued ≤ number)
    (sub : fewer.Subperm flight) : Tracked seq limit number fewer log reader where
  distinct := by
    obtain ⟨same, permuted, sublist⟩ := sub
    exact (permuted.append_right _).nodup_iff.mp
      (tracked.distinct.sublist (sublist.append_right _))
  within entry listed := (tracked.within entry listed).trans more
  ahead number flying := by
    obtain ⟨above, below⟩ := tracked.ahead number (sub.subset flying)
    exact ⟨above, below.trans more⟩
  since := tracked.since.trans more
  behind := tracked.behind
  due := tracked.due

/-- The next number is given out. -/
theorem issue (tracked : Tracked seq limit issued flight log reader) :
    Tracked seq limit (issued + 1) ((issued + 1) :: flight) log reader where
  distinct := by
    rw [List.cons_append, List.nodup_cons]
    refine ⟨fun taken => ?_, tracked.distinct⟩
    rcases List.mem_append.mp taken with flying | listed
    · exact absurd (tracked.ahead _ flying).2 (Nat.not_succ_le_self issued)
    · obtain ⟨entry, present, numbered⟩ := List.mem_map.mp listed
      have low := tracked.within entry present
      rw [numbered] at low
      exact absurd low (Nat.not_succ_le_self issued)
  within entry listed := (tracked.within entry listed).trans (Nat.le_succ issued)
  ahead number flying := by
    rcases List.mem_cons.mp flying with rfl | earlier
    · exact ⟨Nat.lt_succ_of_le tracked.since, le_rfl⟩
    · obtain ⟨above, below⟩ := tracked.ahead number earlier
      exact ⟨above, below.trans (Nat.le_succ issued)⟩
  since := tracked.since.trans (Nat.le_succ issued)
  behind := tracked.behind
  due := tracked.due

/-- An entry becomes visible: the reader has not seen so high a number. -/
theorem publish (tracked : Tracked seq limit issued flight log reader)
    (flying : flight.Perm (seq entry :: fewer)) :
    Tracked seq limit issued fewer (log ++ [entry]) { reader with polls := 0 } where
  distinct := by
    have moved : (flight ++ log.map seq).Perm (fewer ++ (log ++ [entry]).map seq) := by
      rw [List.map_append, List.map_singleton, ← List.append_assoc]
      refine (flying.append_right _).trans ?_
      exact (List.perm_append_singleton (seq entry) (fewer ++ log.map seq)).symm
    exact moved.nodup_iff.mp tracked.distinct
  within other listed := by
    rcases List.mem_append.mp listed with old | new
    · exact tracked.within other old
    · rw [List.mem_singleton.mp new]
      exact (tracked.ahead _ (flying.mem_iff.mpr (.head _))).2
  ahead number left := tracked.ahead number (flying.mem_iff.mpr (.tail _ left))
  since := tracked.since
  behind other listed seen := by
    rcases List.mem_append.mp listed with old | new
    · exact tracked.behind other old seen
    · rw [List.mem_singleton.mp new] at seen
      exact absurd (tracked.ahead _ (flying.mem_iff.mpr (.head _))).1 (Nat.not_lt.mpr seen)
  due := by
    rw [length_unread, Nat.mul_zero]
    exact List.length_filter_le ..

/-- The reader takes a page that goes past no number in flight. -/
theorem receive (tracked : Tracked seq limit issued flight log reader)
    (clear : ∀ number ∈ flight, ∀ entry ∈ (unread seq reader.since log).take limit,
      seq entry < number) :
    Tracked seq limit issued flight log
      (reader.receive seq ((unread seq reader.since log).take limit)) where
  distinct := tracked.distinct
  within := tracked.within
  ahead number flying := by
    obtain ⟨above, below⟩ := tracked.ahead number flying
    exact ⟨highest_lt above (clear number flying), below⟩
  since := by
    refine Nat.lt_succ_iff.mp (highest_lt (Nat.lt_succ_of_le tracked.since) ?_)
    intro entry taken
    have listed := (mem_unread.mp (List.mem_of_mem_take taken)).1
    exact Nat.lt_succ_of_le (tracked.within entry listed)
  behind entry listed seen := by
    have visible : (log.map seq).Nodup := (List.nodup_append.mp tracked.distinct).2.1
    rcases mem_page visible listed seen with before | taken
    · exact List.mem_append_left _ (tracked.behind entry listed before)
    · exact List.mem_append_right _ taken
  due := by
    have due := tracked.due
    have left : (unread seq reader.since log).length - limit ≤
        log.length - limit * (reader.polls + 1) := by
      rw [Nat.mul_succ]
      omega
    exact length_unread_page.trans left

/-- Nothing is missing once the pages since the last entry are enough for the log. -/
theorem complete (tracked : Tracked seq limit issued flight log reader)
    (polled : log.length ≤ limit * reader.polls) : ∀ entry ∈ log, entry ∈ reader.received := by
  intro entry listed
  apply tracked.behind entry listed
  by_contra above
  have due : entry ∈ unread seq reader.since log := mem_unread.mpr ⟨listed, Nat.not_le.mp above⟩
  have some := List.length_pos_of_mem due
  have none := tracked.due
  omega

end Tracked

/-- What may happen to the numbers and the log between two pages. -/
inductive Turn (seq : α → Nat) (issued : Nat) (flight : List Nat) (log : List α) :
    Nat → List Nat → List α → Prop
  | lose {number : Nat} {fewer : List Nat} (more : issued ≤ number)
      (sub : fewer.Subperm flight) : Turn seq issued flight log number fewer log
  | issue {more : List Nat} (taken : more.Perm ((issued + 1) :: flight)) :
      Turn seq issued flight log (issued + 1) more log
  | publish {entry : α} {fewer : List Nat} (flying : flight.Perm (seq entry :: fewer)) :
      Turn seq issued flight log issued fewer (log ++ [entry])
  /-- A number is given out and its entry becomes visible at once. -/
  | append {entry : α} (next : seq entry = issued + 1) :
      Turn seq issued flight log (issued + 1) flight (log ++ [entry])

section Turn

variable {limit issued number : Nat} {flight after : List Nat} {log grown : List α}
  {reader : Reader α}

/-- The pages are counted anew when the log grows. -/
def Reader.await (grows : Bool) (reader : Reader α) : Reader α :=
  if grows then { reader with polls := 0 } else reader

theorem Tracked.turn (tracked : Tracked seq limit issued flight log reader)
    (turn : Turn seq issued flight log number after grown) :
    Tracked seq limit number after grown (reader.await (log.length < grown.length)) := by
  cases turn with
  | lose more sub =>
    rw [Reader.await, if_neg (by simp)]
    exact tracked.lose more sub
  | issue taken =>
    rw [Reader.await, if_neg (by simp)]
    exact tracked.issue.lose le_rfl taken.subperm
  | publish flying =>
    rw [Reader.await, if_pos (by simp)]
    exact tracked.publish flying
  | append next =>
    rw [Reader.await, if_pos (by simp)]
    exact tracked.issue.publish (by rw [next])

end Turn

theorem tracked_empty (limit issued : Nat) :
    Tracked seq limit issued [] [] ({} : Reader α) where
  distinct := List.nodup_nil
  within := nofun
  ahead := nofun
  since := Nat.zero_le issued
  behind := nofun
  due := le_rfl

end Sequenced
