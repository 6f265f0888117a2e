import QueueWorkflows.Base.Calendar
import QueueWorkflows.Engine.Scheduler

/-! The instants that the engine stores on SQLite. They are texts and compared as texts, and
their writers do not write them to one precision. -/

namespace QueueWorkflows

open Calendar

namespace SqliteTime

/-- The milliseconds of the years 0 to 9999, the dates that SQLite knows. -/
def span : Nat := 1000 * (86400 * yearStart 10000)

/-- What `'now'` reads, in milliseconds from the start of year 0. -/
abbrev Reading := {milli : Nat // milli < span}

instance : DecidableLE Reading :=
  fun now later => inferInstanceAs (Decidable (now.1 ≤ later.1))

/-- The microseconds from the start of year 0 to the epoch. -/
def epoch : Int := 1000000 * (86400 * yearStart 1970)

/-! ### Writers -/

inductive Interval where
  | secs
  | days
deriving DecidableEq

def Interval.millis : Interval → Int
  | .secs => 1000
  | .days => 86400000

inductive Writer where
  /-- `now()`, as it is translated. -/
  | now (reading : Reading)
  /-- `now() ± make_interval(unit => count)`, as it is translated, with the sign in the count. -/
  | makeInterval (reading : Reading) (unit : Interval) (count : Int)
  /-- `SqliteDialect.future_seconds`. -/
  | futureSeconds (reading : Reading) (secs : Int)
  /-- `_adapt_dt`. -/
  | adapted (dt : Datetime)

/-- A date function is NULL outside the dates that SQLite knows. -/
def formatted (text : Nat → List Char) (milli : Int) : Option (List Char) :=
  if 0 ≤ milli ∧ milli < span then some (text milli.toNat) else none

/-- `strftime('%Y-%m-%d %H:%M:%f', …)`. -/
def strftime (milli : Int) : Option (List Char) :=
  formatted milliText milli

/-- `datetime(…)`. -/
def datetime (milli : Int) : Option (List Char) :=
  formatted (fun milli => secondText (milli / 1000)) milli

/-- `strftime('%Y-%m-%d %H:%M:%S')` of a `datetime` in UTC. -/
def adaptDt (dt : Datetime) : List Char :=
  secondText ((dt.1 + epoch).toNat / 1000000)

namespace Writer

/-- The text that is stored. -/
def text? : Writer → Option (List Char)
  | now reading => strftime reading
  | makeInterval reading unit count => strftime (reading + count * unit.millis)
  | futureSeconds reading secs =>
    -- The modifier is `'+' || secs || ' seconds'`, and `+-5` is no number.
    if secs < 0 then none else datetime (reading + 1000 * secs)
  | adapted dt => some (adaptDt dt)

/-- The instant that is meant, in microseconds from the start of year 0. -/
def micros : Writer → Int
  | now reading => 1000 * reading
  | makeInterval reading unit count => 1000 * (reading + count * unit.millis)
  | futureSeconds reading secs => 1000 * (reading + 1000 * secs)
  | adapted dt => dt.1 + epoch

/-- Whether the writer leaves out what is below a second. -/
def Whole : Writer → Prop
  | now _ | makeInterval _ _ _ => False
  | futureSeconds _ _ | adapted _ => True

def second (writer : Writer) : Int :=
  writer.micros / 1000000

end Writer

/-- An instant that is stored. -/
structure Stamp where
  writer : Writer
  text : List Char
  stored : writer.text? = some text

/-- When the order of the texts is that of the instants: they fall into different seconds, or
both are written to the millisecond, or one is a whole second before one that is not, or neither
is of this kind and the first is not the earlier one. -/
def InStep (first second : Writer) : Prop :=
  first.second ≠ second.second ∨ (¬ first.Whole ∧ ¬ second.Whole) ∨
    (first.micros < second.micros ↔ first.Whole ∧ ¬ second.Whole)

/-! ### Leases -/

/-- Who claims: a worker of nodes (`_CLAIM_SQL`) or of ingest jobs. -/
inductive Claim where
  | node
  | ingest

def Claim.leaseExpiresAt (claim : Claim) (reading : Reading) (leaseS : Int) : Writer :=
  match claim with
  | .node => .futureSeconds reading leaseS
  | .ingest => .makeInterval reading .secs leaseS

/-- `lease_expires_at IS NOT NULL AND lease_expires_at < now()`. -/
def lapsed (leaseExpiresAt : Option (List Char)) (later : Reading) : Prop :=
  ∃ text now, leaseExpiresAt = some text ∧ (Writer.now later).text? = some now ∧ text < now

/-- When a lease lasts as long as it was asked for: a node is claimed on a whole second, or for
no time at all, or until after the last date. -/
def Lasts (claim : Claim) (reading : Reading) (leaseS : Int) : Prop :=
  match claim with
  | .node => reading.1 % 1000 = 0 ∨ leaseS ≤ 0 ∨ span ≤ reading + 1000 * leaseS
  | .ingest => True

/-! ### Texts and instants -/

section Texts

variable {writer : Writer} {text : List Char} {milli : Int} {of : Nat → List Char}

theorem formatted_some (stored : formatted of milli = some text) :
    0 ≤ milli ∧ milli < span ∧ text = of milli.toNat := by
  unfold formatted at stored
  split at stored
  · rename_i inside
    exact ⟨inside.1, inside.2, (Option.some.inj stored).symm⟩
  · cases stored

theorem datetime_within (dt : Datetime) : 0 ≤ dt.1 + epoch ∧ dt.1 + epoch < 1000 * span := by
  obtain ⟨low, high⟩ := dt.2
  have start : epoch = 1000000 * (86400 * 719528) := by decide
  have finish : (span : Int) = 1000 * (86400 * 3652425) := by decide
  simp only [datetimeMin, datetimeMax] at low high
  omega

theorem strftime_some (stored : strftime milli = some text) :
    0 ≤ milli ∧ milli < span ∧ text = milliText milli.toNat :=
  formatted_some stored

theorem datetime_some (stored : datetime milli = some text) :
    0 ≤ milli ∧ milli < span ∧ text = secondText (milli.toNat / 1000) :=
  formatted_some stored

/-- What is stored is the instant, cut to the precision of its writer. -/
theorem stored_text (stored : writer.text? = some text) :
    ∃ micros : Nat, writer.micros = micros ∧ micros < 1000 * span ∧
      (writer.Whole → text = secondText (micros / 1000000)) ∧
      (¬ writer.Whole → ∃ milli, micros = 1000 * milli ∧ text = milliText milli) := by
  cases writer with
  | now reading =>
    have stored : strftime reading.1 = some text := stored
    obtain ⟨-, high, rfl⟩ := strftime_some stored
    refine ⟨1000 * reading.1, ?_, by omega, fun no => no.elim, fun _ => ?_⟩
    · simp only [Writer.micros, Nat.cast_mul, Nat.cast_ofNat]
    · exact ⟨reading.1, rfl, rfl⟩
  | makeInterval reading unit count =>
    have stored : strftime (reading.1 + count * unit.millis) = some text := stored
    obtain ⟨low, high, rfl⟩ := strftime_some stored
    refine ⟨1000 * (reading.1 + count * unit.millis).toNat, ?_, by omega,
      fun no => no.elim, fun _ => ?_⟩
    · simp only [Writer.micros]
      omega
    · exact ⟨_, rfl, rfl⟩
  | futureSeconds reading secs =>
    simp only [Writer.text?] at stored
    split at stored
    · cases stored
    · obtain ⟨low, high, rfl⟩ := datetime_some stored
      refine ⟨1000 * (reading.1 + 1000 * secs).toNat, ?_, by omega, fun _ => ?_, fun no => ?_⟩
      · simp only [Writer.micros]
        omega
      · congr 1
        omega
      · exact absurd trivial no
  | adapted dt =>
    obtain rfl := Option.some.inj stored
    obtain ⟨low, high⟩ := datetime_within dt
    refine ⟨(dt.1 + epoch).toNat, ?_, by omega, fun _ => rfl, fun no => absurd trivial no⟩
    simp only [Writer.micros]
    omega

end Texts

/-! ### The order of the texts -/

theorem text_lt_iff (first second : Stamp) :
    (first.text < second.text ↔ first.writer.micros < second.writer.micros) ↔
      InStep first.writer second.writer := by
  obtain ⟨micros, meant, inside, whole, milli⟩ := stored_text first.stored
  obtain ⟨later, meaning, within, wholly, millis⟩ := stored_text second.stored
  simp only [InStep, Writer.second, meant, meaning]
  simp only [span] at inside within
  by_cases coarse : first.writer.Whole <;> by_cases coarsely : second.writer.Whole
  · rw [whole coarse, wholly coarsely,
      secondText_sorts.lt_iff _ (by omega) _ (by omega)]
    simp only [coarse, coarsely, not_true_eq_false, and_false, iff_false, false_or]
    omega
  · obtain ⟨milli, rfl, text⟩ := millis coarsely
    rw [whole coarse, text, secondText_lt_milliText (by omega) (by omega)]
    simp only [coarse, coarsely, not_true_eq_false, not_false_eq_true, and_true, iff_true,
      false_or]
    omega
  · obtain ⟨milli, rfl, text⟩ := milli coarse
    rw [wholly coarsely, text, milliText_lt_secondText (by omega) (by omega)]
    simp only [coarse, coarsely, not_true_eq_false, and_false, iff_false, false_or]
    omega
  · obtain ⟨milli, rfl, text⟩ := milli coarse
    obtain ⟨later, rfl, latter⟩ := millis coarsely
    rw [text, latter, milliText_sorts.lt_iff _ (by omega) _ (by omega)]
    simp only [coarse, coarsely, not_false_eq_true, and_self, true_or, or_true, iff_true]
    omega

/-! ### Leases and the clock -/

section Leases

variable {reading later : Reading} {leaseS : Int}

theorem now_text (reading : Reading) :
    (Writer.now reading).text? = some (milliText reading.1) := by
  have inside := reading.2
  simp only [Writer.text?, strftime, formatted]
  rw [if_pos (by omega)]
  rfl

theorem lapsed_ingest :
    lapsed (Claim.ingest.leaseExpiresAt reading leaseS).text? later →
      reading.1 + 1000 * leaseS < later.1 := by
  rintro ⟨text, now, stored, read, before⟩
  have stored : strftime (reading.1 + leaseS * 1000) = some text := stored
  obtain ⟨low, high, rfl⟩ := strftime_some stored
  have small := later.2
  obtain rfl := Option.some.inj ((now_text later).symm.trans read)
  simp only [span] at high small
  rw [milliText_sorts.lt_iff _ (by omega) _ small] at before
  omega

theorem lapsed_node (asked : 0 ≤ leaseS) :
    lapsed (Claim.node.leaseExpiresAt reading leaseS).text? later ↔
      reading.1 + 1000 * leaseS < span ∧
        (reading.1 + 1000 * leaseS) / 1000 ≤ later.1 / 1000 := by
  have small := later.2
  have stored : (Claim.node.leaseExpiresAt reading leaseS).text? =
      datetime (reading.1 + 1000 * leaseS) := by
    simp only [Claim.leaseExpiresAt, Writer.text?]
    rw [if_neg (by omega)]
  rw [stored]
  constructor
  · rintro ⟨text, now, written, read, before⟩
    obtain ⟨low, high, rfl⟩ := datetime_some written
    obtain rfl := Option.some.inj ((now_text later).symm.trans read)
    simp only [span] at high small
    rw [secondText_lt_milliText (by omega) small] at before
    refine ⟨by simpa only [span] using high, ?_⟩
    omega
  · rintro ⟨high, before⟩
    refine ⟨secondText ((reading.1 + 1000 * leaseS).toNat / 1000), milliText later.1, ?_,
      now_text later, ?_⟩
    · simp only [datetime, formatted]
      rw [if_pos (by omega)]
    · simp only [span] at high small
      rw [secondText_lt_milliText (by omega) small]
      omega

theorem lasts_iff (claim : Claim) (reading : Reading) (leaseS : Int) :
    (∀ later : Reading, reading ≤ later →
      lapsed (claim.leaseExpiresAt reading leaseS).text? later →
        reading.1 + 1000 * leaseS ≤ later.1) ↔ Lasts claim reading leaseS := by
  cases claim with
  | ingest =>
    simp only [Lasts, iff_true]
    intro later _ expired
    have := lapsed_ingest expired
    omega
  | node =>
    simp only [Lasts]
    constructor
    · intro lasts
      by_contra! short
      obtain ⟨part, some, inside⟩ := short
      -- The second in which the lease ends begins before the lease does end.
      let later : Reading := ⟨1000 * ((reading.1 + 1000 * leaseS) / 1000).toNat, by omega⟩
      have after : reading ≤ later := by
        change reading.1 ≤ 1000 * ((reading.1 + 1000 * leaseS) / 1000).toNat
        omega
      have expired : lapsed (Claim.node.leaseExpiresAt reading leaseS).text? later := by
        rw [lapsed_node (by omega)]
        refine ⟨inside, ?_⟩
        simp only [later]
        omega
      have := lasts later after expired
      simp only [later] at this
      omega
    · intro safe later after expired
      have after : reading.1 ≤ later.1 := after
      by_cases negative : leaseS < 0
      · omega
      · rw [lapsed_node (by omega)] at expired
        omega

end Leases

end SqliteTime

/-- Timestamps on SQLite stand in the order of their instants exactly if they are in step, and a
lease is never judged expired before its time exactly if it lasts. -/
theorem sqlite_times_iff (first second : SqliteTime.Stamp) (claim : SqliteTime.Claim)
    (reading : SqliteTime.Reading) (leaseS : Int) :
    ((first.text < second.text ↔ first.writer.micros < second.writer.micros) ↔
      SqliteTime.InStep first.writer second.writer) ∧
    ((∀ later : SqliteTime.Reading, reading ≤ later →
      SqliteTime.lapsed (claim.leaseExpiresAt reading leaseS).text? later →
        reading.1 + 1000 * leaseS ≤ later.1) ↔ SqliteTime.Lasts claim reading leaseS) :=
  ⟨SqliteTime.text_lt_iff first second, SqliteTime.lasts_iff claim reading leaseS⟩

/-- A lease of one second, claimed at 2026-01-01 00:00:00.900, has lapsed a tenth of a second
later. The same second read at .400 and a `datetime` at its half stand the other way round. -/
theorem lease_lapses_early :
    (∃ reading later : SqliteTime.Reading, reading.1 = 63934444800900 ∧
      later.1 = reading.1 + 100 ∧
      SqliteTime.lapsed (SqliteTime.Claim.node.leaseExpiresAt reading 1).text? later) ∧
    (∃ (reading : SqliteTime.Reading) (dt : Datetime) (now adapted : List Char),
      (SqliteTime.Writer.now reading).text? = some now ∧
      (SqliteTime.Writer.adapted dt).text? = some adapted ∧
      (SqliteTime.Writer.now reading).micros < (SqliteTime.Writer.adapted dt).micros ∧
      adapted < now) := by
  refine ⟨⟨⟨63934444800900, by decide⟩, ⟨63934444801000, by decide⟩, rfl, rfl, ?_⟩,
    ⟨⟨63934444800400, by decide⟩, ⟨1767225600500000, by decide⟩,
      "2026-01-01 00:00:00.400".toList, "2026-01-01 00:00:00".toList, ?_, ?_, ?_, ?_⟩⟩
  · exact ⟨"2026-01-01 00:00:01".toList, "2026-01-01 00:00:01.000".toList, by decide +kernel,
      by decide +kernel, by decide +kernel⟩
  · decide +kernel
  · decide +kernel
  · decide +kernel
  · decide +kernel

end QueueWorkflows
