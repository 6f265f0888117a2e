import Mathlib.Data.Nat.Find
import Mathlib.Order.Monotone.Basic
import Mathlib.Tactic.IntervalCases

/-! Dates of the Gregorian calendar as texts of fixed width. A number is cut into a unit and
what is left of it, and the texts of both stand one after the other, so texts stand in the order
of the numbers. -/

namespace QueueWorkflows

namespace Calendar

section Order

variable {width bound : Nat} {first second tail rest : List Char}

/-- Texts that begin with as much are told apart there, or else by what follows. -/
theorem append_lt_append (same : first.length = second.length) :
    first ++ tail < second ++ rest ↔ first < second ∨ first = second ∧ tail < rest := by
  induction first generalizing second with
  | nil =>
    obtain rfl : second = [] := List.length_eq_zero_iff.mp same.symm
    simp
  | cons head left ih =>
    cases second with
    | nil => simp at same
    | cons other right =>
      simp only [List.cons_append, List.cons_lt_cons_iff, ih (Nat.succ.inj same),
        List.cons.injEq]
      tauto

/-- Texts of one width, in the order of the numbers they stand for. -/
structure Sorts (width bound : Nat) (text : Nat → List Char) : Prop where
  length : ∀ value, (text value).length = width
  lt_iff : ∀ value < bound, ∀ other < bound, (text value < text other ↔ value < other)

theorem Sorts.eq_iff {text : Nat → List Char} (sorts : Sorts width bound text) {value other : Nat}
    (small : value < bound) (below : other < bound) : text value = text other ↔ value = other := by
  constructor
  · intro same
    have up := sorts.lt_iff value small other below
    have down := sorts.lt_iff other below value small
    simp only [same, List.lt_irrefl, false_iff] at up down
    omega
  · rintro rfl
    rfl

/-! ### Numerals -/

/-- The decimal digits of a value, as many as the width says. -/
def numeral : Nat → Nat → List Char
  | 0, _ => []
  | width + 1, value => numeral width (value / 10) ++ [Nat.digitChar (value % 10)]

theorem numeral_length (width value : Nat) : (numeral width value).length = width := by
  induction width generalizing value with
  | zero => rfl
  | succ width ih => simp [numeral, ih]

theorem digitChar_lt_iff {digit other : Nat} (small : digit < 10) (below : other < 10) :
    Nat.digitChar digit < Nat.digitChar other ↔ digit < other := by
  have all : ∀ digit : Fin 10, ∀ other : Fin 10,
      (Nat.digitChar digit < Nat.digitChar other ↔ digit < other) := by decide
  exact all ⟨digit, small⟩ ⟨other, below⟩

theorem numeral_sorts (width : Nat) : Sorts width (10 ^ width) (numeral width) := by
  induction width with
  | zero =>
    refine ⟨numeral_length 0, ?_⟩
    intro value small other below
    simp only [pow_zero] at small below
    simp only [numeral, List.lt_irrefl, false_iff]
    omega
  | succ width ih =>
    refine ⟨numeral_length _, ?_⟩
    intro value small other below
    have high : value / 10 < 10 ^ width := by omega
    have higher : other / 10 < 10 ^ width := by omega
    have same : (numeral width (value / 10)).length = (numeral width (other / 10)).length := by
      simp only [numeral_length]
    have digit := digitChar_lt_iff (Nat.mod_lt value (by decide : 0 < 10))
      (Nat.mod_lt other (by decide : 0 < 10))
    simp only [numeral, append_lt_append same, ih.lt_iff _ high _ higher,
      ih.eq_iff high higher, List.cons_lt_cons_iff, List.lt_irrefl, and_false, or_false, digit]
    omega

/-! ### A unit and what is left -/

/-- The number is cut at the start of its unit. -/
structure Cuts (unit start : Nat → Nat) : Prop where
  monotone : Monotone unit
  start_le : ∀ value, start (unit value) ≤ value

theorem Cuts.lt_iff {unit start : Nat → Nat} (cuts : Cuts unit start) (value other : Nat) :
    value < other ↔ unit value < unit other ∨
      unit value = unit other ∧ value - start (unit value) < other - start (unit other) := by
  have low := cuts.start_le value
  have lower := cuts.start_le other
  constructor
  · intro earlier
    rcases (cuts.monotone earlier.le).lt_or_eq with less | same
    · exact .inl less
    · refine .inr ⟨same, ?_⟩
      rw [same] at low ⊢
      omega
  · rintro (less | ⟨same, less⟩)
    · by_contra late
      have := cuts.monotone (Nat.le_of_not_lt late)
      omega
    · rw [same] at less
      omega

theorem Sorts.cut {unit start : Nat → Nat} {units : Nat} {below : Nat → Nat} {left right : Nat}
    {high : Nat → List Char} {low : Nat → Nat → List Char} (cuts : Cuts unit start) (mark : Char)
    (highs : Sorts left units high) (lows : ∀ unit, Sorts right (below unit) (low unit))
    (unit_lt : ∀ value < bound, unit value < units)
    (rest_lt : ∀ value < bound, value - start (unit value) < below (unit value)) :
    Sorts (left + 1 + right) bound
      fun value => high (unit value) ++ mark :: low (unit value) (value - start (unit value)) := by
  refine ⟨?_, ?_⟩
  · intro value
    simp only [List.length_append, List.length_cons, highs.length, (lows _).length]
    omega
  · intro value small other lower
    have same : (high (unit value)).length = (high (unit other)).length := by
      simp only [highs.length]
    rw [append_lt_append same, highs.lt_iff _ (unit_lt _ small) _ (unit_lt _ lower),
      highs.eq_iff (unit_lt _ small) (unit_lt _ lower), List.cons_lt_cons_iff,
      cuts.lt_iff value other]
    simp only [Char.lt_irrefl, true_and, false_or]
    refine or_congr_right (and_congr_right ?_)
    intro equal
    have inside := rest_lt other lower
    rw [← equal] at inside
    rw [← equal]
    exact (lows (unit value)).lt_iff _ (rest_lt value small) _ inside

theorem Sorts.divide {size units left right : Nat} {high low : Nat → List Char} (mark : Char)
    (highs : Sorts left units high) (lows : Sorts right size low) (positive : 0 < size) :
    Sorts (left + 1 + right) (size * units)
      fun value => high (value / size) ++ mark :: low (value % size) := by
  have cuts : Cuts (· / size) (size * ·) :=
    ⟨fun _ _ earlier => Nat.div_le_div_right earlier, fun value => Nat.mul_div_le value size⟩
  have sorts : Sorts (left + 1 + right) (size * units)
      fun value => high (value / size) ++ mark :: low (value - size * (value / size)) := by
    apply Sorts.cut cuts mark highs (fun _ => lows)
    · intro value inside
      exact Nat.div_lt_of_lt_mul inside
    · intro value inside
      rw [← Nat.mod_eq_sub]
      exact Nat.mod_lt value positive
  simpa only [← Nat.mod_eq_sub] using sorts

theorem Sorts.succ {text : Nat → List Char} (sorts : Sorts width (bound + 1) text) :
    Sorts width bound fun value => text (value + 1) := by
  refine ⟨fun value => sorts.length _, ?_⟩
  intro value small other below
  rw [sorts.lt_iff _ (by omega) _ (by omega)]
  omega

theorem Sorts.mono {text : Nat → List Char} {less : Nat} (sorts : Sorts width bound text)
    (within : less ≤ bound) : Sorts width less text where
  length := sorts.length
  lt_iff := fun value small other below => sorts.lt_iff value (by omega) other (by omega)

end Order

/-! ### Years and months -/

/-- The days before a year, from the start of year 0. -/
def yearStart (year : Nat) : Nat :=
  365 * year + (year + 3) / 4 - (year + 99) / 100 + (year + 399) / 400

/-- The year of a day: no year is longer than the mean by more than a day and a half. -/
def yearOf (day : Nat) : Nat :=
  let year := (400 * day - 600) / 146097
  if yearStart (year + 1) ≤ day then year + 1 else year

theorem yearStart_yearOf (day : Nat) :
    yearStart (yearOf day) ≤ day ∧ day < yearStart (yearOf day + 1) := by
  unfold yearOf yearStart
  dsimp only
  split <;> omega

theorem yearStart_mono : Monotone yearStart := by
  apply monotone_nat_of_le_succ
  intro year
  unfold yearStart
  omega

theorem yearOf_lt {day years : Nat} (inside : day < yearStart years) : yearOf day < years := by
  by_contra! late
  have begun := (yearStart_yearOf day).1
  have := yearStart_mono late
  omega

theorem cuts_year : Cuts yearOf yearStart where
  monotone := by
    intro day later early
    apply Nat.le_of_lt_succ
    apply yearOf_lt
    exact Nat.lt_of_le_of_lt early (yearStart_yearOf later).2
  start_le := fun day => (yearStart_yearOf day).1

def isLeap (year : Nat) : Bool :=
  year % 4 = 0 && (year % 100 ≠ 0 || year % 400 = 0)

def monthDays (leap : Bool) : List Nat :=
  [31, if leap then 29 else 28, 31, 30, 31, 30, 31, 31, 30, 31, 30, 31]

/-- The days before a month, which is counted from 0. -/
def monthStart (leap : Bool) (month : Nat) : Nat :=
  ((monthDays leap).take month).sum

def monthOf (leap : Bool) (day : Nat) : Nat :=
  Nat.findGreatest (monthStart leap · ≤ day) 11

theorem cuts_month (leap : Bool) : Cuts (monthOf leap) (monthStart leap) where
  monotone := by
    intro day later early
    refine Nat.findGreatest_mono_left ?_ 11
    intro month begun
    exact Nat.le_trans begun early
  start_le := by
    intro day
    exact Nat.findGreatest_spec (P := (monthStart leap · ≤ day)) (Nat.zero_le 11) (Nat.zero_le day)

theorem month_lt (leap : Bool) {day : Nat} (inside : day < 366) :
    monthOf leap day < 12 ∧ day - monthStart leap (monthOf leap day) < 32 := by
  have small : monthOf leap day ≤ 11 := Nat.findGreatest_le 11
  refine ⟨by omega, ?_⟩
  have lengths : ∀ leap : Bool, ∀ month < 11,
      monthStart leap (month + 1) ≤ monthStart leap month + 31 := by decide
  have last : ∀ leap : Bool, 334 ≤ monthStart leap 11 := by decide
  rcases small.lt_or_eq with early | december
  · have next : ¬ monthStart leap (monthOf leap day + 1) ≤ day := by
      apply Nat.findGreatest_is_greatest (P := (monthStart leap · ≤ day)) (n := 11)
      · exact Nat.lt_succ_self _
      · exact early
    have := lengths leap _ early
    omega
  · have := last leap
    rw [december]
    omega

theorem yearStart_succ (year : Nat) : yearStart (year + 1) ≤ yearStart year + 366 := by
  unfold yearStart
  omega

/-! ### Dates and times -/

/-- `MM-DD` of a day of the year. -/
def monthText (leap : Bool) (day : Nat) : List Char :=
  numeral 2 (monthOf leap day + 1) ++
    '-' :: numeral 2 (day - monthStart leap (monthOf leap day) + 1)

/-- `YYYY-MM-DD`. -/
def dateText (day : Nat) : List Char :=
  numeral 4 (yearOf day) ++ '-' :: monthText (isLeap (yearOf day)) (day - yearStart (yearOf day))

/-- `HH:MM:SS` of a second of the day. -/
def clockText (second : Nat) : List Char :=
  numeral 2 (second / 3600) ++ ':' ::
    (numeral 2 (second % 3600 / 60) ++ ':' :: numeral 2 (second % 3600 % 60))

/-- `YYYY-MM-DD HH:MM:SS`. -/
def secondText (second : Nat) : List Char :=
  dateText (second / 86400) ++ ' ' :: clockText (second % 86400)

/-- `YYYY-MM-DD HH:MM:SS.SSS`. -/
def milliText (milli : Nat) : List Char :=
  secondText (milli / 1000) ++ '.' :: numeral 3 (milli % 1000)

theorem monthText_sorts (leap : Bool) : Sorts 5 366 (monthText leap) := by
  have two : Sorts 2 99 fun value => numeral 2 (value + 1) := (numeral_sorts 2).succ
  apply Sorts.cut (cuts_month leap) '-' two (fun _ => two)
  · intro day inside
    have := (month_lt leap inside).1
    omega
  · intro day inside
    have := (month_lt leap inside).2
    omega

theorem dateText_sorts : Sorts 10 (yearStart 10000) dateText := by
  apply Sorts.cut cuts_year '-' (numeral_sorts 4) (fun year => monthText_sorts (isLeap year))
  · intro day inside
    exact yearOf_lt inside
  · intro day inside
    have := (yearStart_yearOf day).2
    have := yearStart_succ (yearOf day)
    omega

theorem clockText_sorts : Sorts 8 86400 clockText := by
  have sixty : Sorts 2 60 (numeral 2) := (numeral_sorts 2).mono (by decide)
  have day : Sorts 2 24 (numeral 2) := (numeral_sorts 2).mono (by decide)
  exact day.divide ':' (sixty.divide ':' sixty (by decide)) (by decide)

theorem secondText_sorts : Sorts 19 (86400 * yearStart 10000) secondText :=
  dateText_sorts.divide ' ' clockText_sorts (by decide)

theorem milliText_sorts : Sorts 23 (1000 * (86400 * yearStart 10000)) milliText :=
  secondText_sorts.divide '.' (numeral_sorts 3) (by decide)

/-! ### Texts of both precisions -/

section Precision

variable {second milli : Nat}

theorem secondText_lt_milliText (inside : second < 86400 * yearStart 10000)
    (within : milli < 1000 * (86400 * yearStart 10000)) :
    secondText second < milliText milli ↔ second ≤ milli / 1000 := by
  have whole : milli / 1000 < 86400 * yearStart 10000 := Nat.div_lt_of_lt_mul within
  have same : (secondText second).length = (secondText (milli / 1000)).length := by
    simp only [secondText_sorts.length]
  have compare := @append_lt_append _ _ [] ('.' :: numeral 3 (milli % 1000)) same
  rw [List.append_nil, secondText_sorts.lt_iff _ inside _ whole,
    secondText_sorts.eq_iff inside whole] at compare
  rw [milliText, compare, Nat.le_iff_lt_or_eq]
  simp only [List.nil_lt_cons, and_true]

theorem milliText_lt_secondText (inside : second < 86400 * yearStart 10000)
    (within : milli < 1000 * (86400 * yearStart 10000)) :
    milliText milli < secondText second ↔ milli / 1000 < second := by
  have whole : milli / 1000 < 86400 * yearStart 10000 := Nat.div_lt_of_lt_mul within
  have same : (secondText (milli / 1000)).length = (secondText second).length := by
    simp only [secondText_sorts.length]
  have compare := @append_lt_append _ _ ('.' :: numeral 3 (milli % 1000)) [] same
  rw [List.append_nil, secondText_sorts.lt_iff _ whole _ inside] at compare
  rw [milliText, compare]
  simp only [List.not_lt_nil, and_false, or_false]

end Precision

end Calendar

end QueueWorkflows
