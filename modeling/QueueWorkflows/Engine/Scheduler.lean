import QueueWorkflows.Engine.Value
import Mathlib.Data.Finset.Basic
import Mathlib.Order.Bounds.Basic
import Mathlib.Tactic.Linarith

/-! The schedule of `scheduler`: entries that are due at a minute of some hours of the day,
the next fire of each, and the soonest of all. -/

namespace QueueWorkflows

def hour : Int := 3600 * 1000000

/-- Year 1 to year 9999, as `datetime` has it. -/
def datetimeMin : Int := -62135596800 * 1000000

def datetimeMax : Int := 253402300800 * 1000000 - 1

/-- A `datetime` in UTC, in microseconds since the epoch: no hour is longer or shorter than
another, and a date only says which hour it is. -/
abbrev Datetime := {time : Int // datetimeMin ≤ time ∧ time ≤ datetimeMax}

namespace Datetime

instance : DecidableLE Datetime :=
  fun now later => inferInstanceAs (Decidable (now.1 ≤ later.1))

instance : DecidableLT Datetime :=
  fun now later => inferInstanceAs (Decidable (now.1 < later.1))

def hourOfDay (now : Datetime) : Int :=
  now.1 / hour % 24

/-- `replace(minute=minute, second=0, microsecond=0)`. -/
def atMinute (minute : Int) (now : Datetime) : Except PyErr Datetime :=
  if valid : 0 ≤ minute ∧ minute ≤ 59 then
    .ok ⟨now.1 - now.1 % hour + minute * (60 * 1000000), by
      obtain ⟨low, high⟩ := now.2
      simp only [datetimeMin, datetimeMax, hour] at low high ⊢
      omega⟩
  else .error ⟨.valueError, "minute must be in 0..59"⟩

/-- `+ timedelta(hours=1)`. -/
def nextHour (now : Datetime) : Except PyErr Datetime :=
  if inside : now.1 + hour ≤ datetimeMax then
    .ok ⟨now.1 + hour, by
      obtain ⟨low, -⟩ := now.2
      simp only [hour] at inside ⊢
      omega⟩
  else .error ⟨.other "OverflowError", "date value out of range"⟩

end Datetime

structure ScheduleEntry where
  name : String
  minute : Int
  taskName : String
  queue : String
  hours : Option (Finset Int) := none
deriving DecidableEq

namespace ScheduleEntry

/-- From a candidate on, the first in an allowed hour; after so many steps, whatever is
there. -/
def walk (hours : Finset Int) : Nat → Datetime → Except PyErr Datetime
  | 0, candidate => .ok candidate
  | steps + 1, candidate =>
    if candidate.hourOfDay ∈ hours then .ok candidate
    else candidate.nextHour.bind (walk hours steps)

/-- The fixed minute of this hour or of the next. -/
def candidate (entry : ScheduleEntry) (now : Datetime) : Except PyErr Datetime :=
  (now.atMinute entry.minute).bind fun candidate =>
    if candidate ≤ now then candidate.nextHour else .ok candidate

def nextFireAt (entry : ScheduleEntry) (now : Datetime) : Except PyErr Datetime :=
  (entry.candidate now).bind fun candidate =>
    match entry.hours with
    | none => .ok candidate
    | some hours => walk hours 24 candidate

/-- `"freshness" in task_name`. -/
def isFreshness (entry : ScheduleEntry) : Bool :=
  decide ("freshness".toList <:+: entry.taskName.toList)

/-- The entry's minute, no seconds, and one of its hours. -/
def Scheduled (entry : ScheduleEntry) (instant : Datetime) : Prop :=
  instant.1 % hour = entry.minute * (60 * 1000000) ∧ ∀ hours ∈ entry.hours, instant.hourOfDay ∈ hours

instance (entry : ScheduleEntry) (instant : Datetime) : Decidable (entry.Scheduled instant) :=
  inferInstanceAs (Decidable (_ ∧ _))

/-- Some hour of the day is allowed. -/
def Satisfiable (entry : ScheduleEntry) : Prop :=
  ∀ hours ∈ entry.hours, ∃ allowed ∈ hours, 0 ≤ allowed ∧ allowed < 24

end ScheduleEntry

/-- `_soonest`: the soonest instant, and the entries that fire then. -/
def soonest (schedule : List ScheduleEntry) (now : Datetime) :
    Except PyErr (Datetime × List ScheduleEntry) := do
  let fires ← schedule.mapM fun entry : ScheduleEntry =>
    (entry.nextFireAt now).map fun fire => (fire, entry)
  match (fires.map Prod.fst).min? with
  | none => .error ⟨.valueError, "min() iterable argument is empty"⟩
  | some soonest => .ok (soonest, (fires.filter fun fire => fire.1 = soonest).map Prod.snd)

/-! ### The next fire -/

section NextFire

variable {entry : ScheduleEntry} {now instant candidate : Datetime} {hours : Finset Int}
  {steps : Nat} {error : PyErr}

private theorem found_of_bind {α β : Type} {first : Except PyErr α}
    {rest : α → Except PyErr β} {value : β} (done : first.bind rest = .ok value) :
    ∃ found, first = .ok found ∧ rest found = .ok value := by
  cases first with
  | error error => cases done
  | ok found => exact ⟨found, rfl, done⟩

private theorem raised_of_bind {α β : Type} {first : Except PyErr α} {rest : α → Except PyErr β}
    (done : first.bind rest = .error error) :
    first = .error error ∨ ∃ found, first = .ok found ∧ rest found = .error error := by
  cases first with
  | error raised =>
    cases done
    exact .inl rfl
  | ok found => exact .inr ⟨found, rfl, done⟩

namespace Datetime

theorem atMinute_ok {minute : Int} (done : now.atMinute minute = .ok instant) :
    0 ≤ minute ∧ minute ≤ 59 ∧ instant.1 = now.1 - now.1 % hour + minute * (60 * 1000000) := by
  unfold atMinute at done
  split at done
  · rename_i valid
    cases done
    exact ⟨valid.1, valid.2, rfl⟩
  · cases done

theorem nextHour_ok (done : now.nextHour = .ok instant) : instant.1 = now.1 + hour := by
  unfold nextHour at done
  split at done
  · cases done
    rfl
  · cases done

theorem nextHour_error (done : now.nextHour = .error error) : datetimeMax < now.1 + hour := by
  unfold nextHour at done
  split at done
  · cases done
  · rename_i outside
    exact not_le.mp outside

theorem hourOfDay_of_add {count : Nat} (apart : instant.1 = now.1 + count * hour) :
    instant.hourOfDay = (now.1 / hour + count) % 24 := by
  unfold hourOfDay
  rw [apart]
  simp only [hour]
  omega

end Datetime

namespace ScheduleEntry

/-- The candidate is the first instant at the entry's minute, of whatever hour. -/
theorem candidate_ok (done : entry.candidate now = .ok candidate) :
    now < candidate ∧ candidate.1 ≤ now.1 + hour ∧
      candidate.1 % hour = entry.minute * (60 * 1000000) ∧
      ∀ instant : Datetime, now < instant → instant.1 % hour = entry.minute * (60 * 1000000) →
        candidate ≤ instant := by
  unfold ScheduleEntry.candidate at done
  obtain ⟨here, placed, done⟩ := found_of_bind done
  obtain ⟨low, high, at'⟩ := Datetime.atMinute_ok placed
  split at done
  · rename_i passed
    have moved := Datetime.nextHour_ok done
    rw [← Subtype.coe_le_coe] at passed
    simp only [← Subtype.coe_lt_coe, ← Subtype.coe_le_coe, hour] at *
    refine ⟨by omega, by omega, by omega, fun instant after aligned => by omega⟩
  · rename_i ahead
    cases done
    rw [not_le, ← Subtype.coe_lt_coe] at ahead
    simp only [← Subtype.coe_lt_coe, ← Subtype.coe_le_coe, hour] at *
    refine ⟨by omega, by omega, by omega, fun instant after aligned => by omega⟩

/-- Where there is no candidate, there is no instant left at the entry's minute. -/
theorem candidate_error (low : 0 ≤ entry.minute) (high : entry.minute ≤ 59)
    (done : entry.candidate now = .error error) :
    datetimeMax < now.1 + hour ∧ ∀ instant : Datetime, now < instant →
      instant.1 % hour ≠ entry.minute * (60 * 1000000) := by
  unfold ScheduleEntry.candidate at done
  rcases raised_of_bind done with invalid | ⟨here, placed, done⟩
  · unfold Datetime.atMinute at invalid
    rw [dif_pos ⟨low, high⟩] at invalid
    cases invalid
  · obtain ⟨-, -, at'⟩ := Datetime.atMinute_ok placed
    split at done
    · have outside := Datetime.nextHour_error done
      simp only [← Subtype.coe_le_coe, ← Subtype.coe_lt_coe, hour] at *
      refine ⟨by omega, fun instant after aligned => ?_⟩
      have inside := instant.2.2
      omega
    · cases done

private theorem refused_from {next : Datetime} {count : Nat}
    (refused : candidate.hourOfDay ∉ hours) (step : next.1 = candidate.1 + hour)
    (skipped : ∀ earlier < count, (next.1 / hour + (earlier : Nat)) % 24 ∉ hours) :
    ∀ earlier < count + 1, (candidate.1 / hour + (earlier : Nat)) % 24 ∉ hours := by
  intro earlier before
  cases earlier with
  | zero => simpa [Datetime.hourOfDay] using refused
  | succ earlier =>
    have later := skipped earlier (by omega)
    have same : (next.1 / hour + (earlier : Nat)) % 24 =
        (candidate.1 / hour + (earlier + 1 : Nat)) % 24 := by
      rw [step]
      simp only [hour]
      omega
    rwa [same] at later

/-- The walk moves hour by hour, past hours that are not allowed. -/
theorem walk_ok (done : walk hours steps candidate = .ok instant) :
    ∃ count : Nat, count ≤ steps ∧ instant.1 = candidate.1 + count * hour ∧
      (∀ earlier < count, (candidate.1 / hour + (earlier : Nat)) % 24 ∉ hours) ∧
      (count < steps → instant.hourOfDay ∈ hours) := by
  induction steps generalizing candidate with
  | zero =>
    cases done
    exact ⟨0, le_rfl, by simp, by simp, by simp⟩
  | succ steps ih =>
    simp only [walk] at done
    split at done
    · rename_i allowed
      cases done
      exact ⟨0, by simp, by simp, by simp, fun _ => allowed⟩
    · rename_i refused
      obtain ⟨next, moved, rest⟩ := found_of_bind done
      obtain ⟨count, bound, apart, skipped, ends⟩ := ih rest
      have step := Datetime.nextHour_ok moved
      refine ⟨count + 1, by omega, ?_, refused_from refused step skipped, fun short => ends (by omega)⟩
      rw [apart, step]
      push_cast
      linarith

/-- A walk that leaves the calendar has tried every hour that was left. -/
theorem walk_error (done : walk hours steps candidate = .error error) :
    ∃ count : Nat, count ≤ steps ∧ datetimeMax < candidate.1 + count * hour ∧
      ∀ earlier < count, (candidate.1 / hour + (earlier : Nat)) % 24 ∉ hours := by
  induction steps generalizing candidate with
  | zero => cases done
  | succ steps ih =>
    simp only [walk] at done
    split at done
    · cases done
    · rename_i refused
      rcases raised_of_bind done with outside | ⟨next, moved, rest⟩
      · refine ⟨1, by omega, by simpa using Datetime.nextHour_error outside, fun earlier before => ?_⟩
        obtain rfl : earlier = 0 := by omega
        simpa [Datetime.hourOfDay] using refused
      · obtain ⟨count, bound, outside, skipped⟩ := ih rest
        have step := Datetime.nextHour_ok moved
        refine ⟨count + 1, by omega, ?_, refused_from refused step skipped⟩
        rw [step] at outside
        push_cast
        linarith

/-- The instants at the entry's minute are the candidate and what lies whole hours behind. -/
theorem hours_from_candidate (done : entry.candidate now = .ok candidate) (after : now < instant)
    (aligned : instant.1 % hour = entry.minute * (60 * 1000000)) :
    ∃ count : Nat, instant.1 = candidate.1 + count * hour := by
  obtain ⟨-, -, minute, first⟩ := candidate_ok done
  have behind := first instant after aligned
  rw [← Subtype.coe_le_coe] at behind
  refine ⟨((instant.1 - candidate.1) / hour).toNat, ?_⟩
  simp only [hour] at *
  omega

/-- The next fire lies whole hours behind the candidate, and every hour between is refused. -/
theorem nextFireAt_ok (done : entry.nextFireAt now = .ok instant) :
    ∃ candidate, entry.candidate now = .ok candidate ∧ ∃ count : Nat, count ≤ 24 ∧
      instant.1 = candidate.1 + count * hour ∧
      (∀ earlier < count, ∃ hours ∈ entry.hours,
        (candidate.1 / hour + (earlier : Nat)) % 24 ∉ hours) ∧
      (count < 24 → ∀ hours ∈ entry.hours, instant.hourOfDay ∈ hours) := by
  obtain ⟨candidate, placed, done⟩ := found_of_bind done
  refine ⟨candidate, placed, ?_⟩
  cases restricted : entry.hours with
  | none =>
    rw [restricted] at done
    cases done
    exact ⟨0, by simp, by simp, by simp, by simp⟩
  | some hours =>
    rw [restricted] at done
    obtain ⟨count, bound, apart, skipped, ends⟩ := walk_ok done
    refine ⟨count, bound, apart, fun earlier before => ⟨hours, rfl, skipped earlier before⟩, ?_⟩
    rintro short _ ⟨⟩
    exact ends short

theorem aligned_of_ok (done : entry.nextFireAt now = .ok instant) :
    now < instant ∧ instant.1 % hour = entry.minute * (60 * 1000000) := by
  obtain ⟨candidate, placed, count, -, apart, -⟩ := nextFireAt_ok done
  obtain ⟨ahead, -, minute, -⟩ := candidate_ok placed
  simp only [← Subtype.coe_lt_coe, hour] at *
  omega

/-- Nothing is scheduled between now and the next fire. -/
theorem le_of_scheduled {other : Datetime} (done : entry.nextFireAt now = .ok instant)
    (scheduled : entry.Scheduled other) (after : now < other) : instant ≤ other := by
  obtain ⟨candidate, placed, count, -, apart, skipped, -⟩ := nextFireAt_ok done
  obtain ⟨behind, away⟩ := hours_from_candidate placed after scheduled.1
  have passed : count ≤ behind := by
    by_contra early
    obtain ⟨hours, restricted, refused⟩ := skipped behind (not_le.mp early)
    exact refused (Datetime.hourOfDay_of_add away ▸ scheduled.2 hours restricted)
  rw [← Subtype.coe_le_coe]
  simp only [hour] at *
  omega

/-- Within a day there is an allowed hour. -/
theorem Satisfiable.within_day (satisfiable : entry.Satisfiable) (base : Int)
    (refused : ∀ earlier < 24, ∃ hours ∈ entry.hours, (base + (earlier : Nat)) % 24 ∉ hours) :
    False := by
  obtain ⟨hours, restricted, -⟩ := refused 0 (by omega)
  obtain ⟨allowed, member, low, high⟩ := satisfiable hours restricted
  obtain ⟨others, same, missing⟩ := refused ((allowed - base) % 24).toNat (by omega)
  obtain rfl : hours = others := Option.some.inj (restricted.symm.trans same)
  have landed : (base + (((allowed - base) % 24).toNat : Nat)) % 24 = allowed := by omega
  rw [landed] at missing
  exact missing member

theorem scheduled_of_ok (satisfiable : entry.Satisfiable)
    (done : entry.nextFireAt now = .ok instant) :
    entry.Scheduled instant ∧ instant.1 ≤ now.1 + 24 * hour := by
  obtain ⟨candidate, placed, count, bound, apart, skipped, ends⟩ := nextFireAt_ok done
  obtain ⟨-, near, -⟩ := candidate_ok placed
  have short : count < 24 := by
    by_contra long
    exact satisfiable.within_day _ fun earlier before => skipped earlier (by omega)
  refine ⟨⟨(aligned_of_ok done).2, ends short⟩, ?_⟩
  simp only [hour] at *
  omega

theorem Scheduled.satisfiable (scheduled : entry.Scheduled instant) : entry.Satisfiable := by
  intro hours restricted
  refine ⟨instant.hourOfDay, scheduled.2 hours restricted, ?_⟩
  unfold Datetime.hourOfDay
  omega

/-- Where no hour is allowed, the walk goes on for a whole day and stops there. -/
theorem day_of_unsatisfiable (unsatisfiable : ¬ entry.Satisfiable)
    (done : entry.nextFireAt now = .ok instant) : now.1 + 24 * hour < instant.1 := by
  obtain ⟨candidate, placed, count, bound, apart, -, ends⟩ := nextFireAt_ok done
  obtain ⟨ahead, -, -, -⟩ := candidate_ok placed
  have long : count = 24 := by
    by_contra short
    have scheduled : entry.Scheduled instant := ⟨(aligned_of_ok done).2, ends (by omega)⟩
    exact unsatisfiable scheduled.satisfiable
  simp only [← Subtype.coe_lt_coe, hour] at *
  omega

theorem none_left_of_error (low : 0 ≤ entry.minute) (high : entry.minute ≤ 59)
    (done : entry.nextFireAt now = .error error) (scheduled : entry.Scheduled instant) :
    instant ≤ now := by
  by_contra after
  rw [not_le] at after
  rcases raised_of_bind done with missing | ⟨candidate, placed, done⟩
  · exact (candidate_error low high missing).2 instant after scheduled.1
  · cases restricted : entry.hours with
    | none =>
      rw [restricted] at done
      cases done
    | some hours =>
      rw [restricted] at done
      obtain ⟨count, -, outside, skipped⟩ := walk_error done
      obtain ⟨behind, away⟩ := hours_from_candidate placed after scheduled.1
      have allowed := scheduled.2 hours restricted
      rw [Datetime.hourOfDay_of_add away] at allowed
      have passed : count ≤ behind := by
        by_contra early
        exact skipped behind (not_le.mp early) allowed
      have inside := instant.2.2
      simp only [hour] at *
      omega

/-- There is a next fire as long as the calendar goes on. -/
theorem nextFireAt_total (low : 0 ≤ entry.minute) (high : entry.minute ≤ 59)
    (early : now.1 + 25 * hour ≤ datetimeMax) : ∃ instant, entry.nextFireAt now = .ok instant := by
  cases done : entry.nextFireAt now with
  | ok instant => exact ⟨instant, rfl⟩
  | error error =>
    rcases raised_of_bind done with missing | ⟨candidate, placed, done⟩
    · have outside := (candidate_error low high missing).1
      simp only [hour] at *
      omega
    · obtain ⟨-, near, -⟩ := candidate_ok placed
      cases restricted : entry.hours with
      | none =>
        rw [restricted] at done
        cases done
      | some hours =>
        rw [restricted] at done
        obtain ⟨count, bound, outside, -⟩ := walk_error done
        simp only [hour] at *
        omega

/-- Where some hour is allowed, the next fire is the first instant that the entry is
scheduled at, and there is none only if no such instant is left. -/
theorem nextFireAt_ok_iff (low : 0 ≤ entry.minute) (high : entry.minute ≤ 59)
    (satisfiable : entry.Satisfiable) :
    entry.nextFireAt now = .ok instant ↔
      IsLeast {instant | entry.Scheduled instant ∧ now < instant} instant := by
  constructor
  · intro done
    exact ⟨⟨(scheduled_of_ok satisfiable done).1, (aligned_of_ok done).1⟩,
      fun other later => le_of_scheduled done later.1 later.2⟩
  · intro least
    cases done : entry.nextFireAt now with
    | error error =>
      exact absurd (none_left_of_error low high done least.1.1) (not_le.mpr least.1.2)
    | ok found =>
      have scheduled := (scheduled_of_ok satisfiable done).1
      rw [le_antisymm (le_of_scheduled done least.1.1 least.1.2)
        (least.2 ⟨scheduled, (aligned_of_ok done).1⟩)]

end ScheduleEntry

/-! ### The soonest instant -/

variable {schedule due : List ScheduleEntry}

private theorem fires_of_mapM {fires : List (Datetime × ScheduleEntry)}
    (done : (schedule.mapM fun entry : ScheduleEntry =>
      (entry.nextFireAt now).map fun fire => (fire, entry)) = .ok fires) :
    fires.map Prod.snd = schedule ∧ ∀ fire ∈ fires, fire.2.nextFireAt now = .ok fire.1 := by
  induction schedule generalizing fires with
  | nil =>
    cases done
    simp
  | cons entry rest ih =>
    rw [List.mapM_cons] at done
    obtain ⟨first, mapped, done⟩ := found_of_bind done
    obtain ⟨others, listed, done⟩ := found_of_bind done
    cases done
    obtain ⟨entries, fired⟩ := ih listed
    cases next : entry.nextFireAt now with
    | error error =>
      rw [next] at mapped
      cases mapped
    | ok fire =>
      rw [next] at mapped
      cases mapped
      refine ⟨by simp [entries], fun other member => ?_⟩
      rcases List.mem_cons.mp member with rfl | behind
      · exact next
      · exact fired other behind

/-- Every entry has a next fire, none of them is before the soonest instant, and an entry
is due if its next fire is that instant. -/
theorem soonest_ok (done : soonest schedule now = .ok (instant, due)) :
    (∃ entry ∈ schedule, entry.nextFireAt now = .ok instant) ∧
      (∀ entry ∈ schedule, ∃ fire, entry.nextFireAt now = .ok fire ∧ instant ≤ fire) ∧
      due = schedule.filter fun entry => (entry.nextFireAt now).toOption = some instant := by
  obtain ⟨fires, mapped, done⟩ := found_of_bind done
  obtain ⟨entries, fired⟩ := fires_of_mapM mapped
  cases least : (fires.map Prod.fst).min? with
  | none =>
    rw [least] at done
    cases done
  | some soonest =>
    rw [least] at done
    cases done
    obtain ⟨listed, below⟩ := List.min?_eq_some_iff.mp least
    obtain ⟨first, member, rfl⟩ := List.mem_map.mp listed
    subst entries
    refine ⟨⟨first.2, List.mem_map_of_mem member, fired first member⟩, fun entry present => ?_, ?_⟩
    · obtain ⟨fire, there, rfl⟩ := List.mem_map.mp present
      exact ⟨fire.1, fired fire there, below _ (List.mem_map_of_mem there)⟩
    · rw [List.filter_map]
      congr 1
      refine List.filter_congr fun fire there => ?_
      simp [fired fire there, Except.toOption]

private theorem mapM_total
    (total : ∀ entry ∈ schedule, ∃ fire, entry.nextFireAt now = .ok fire) :
    ∃ fires, (schedule.mapM fun entry : ScheduleEntry =>
      (entry.nextFireAt now).map fun fire => (fire, entry)) = .ok fires := by
  induction schedule with
  | nil => exact ⟨[], rfl⟩
  | cons entry rest ih =>
    obtain ⟨fire, next⟩ := total entry (by simp)
    obtain ⟨fires, others⟩ := ih fun other member => total other (.tail _ member)
    refine ⟨(fire, entry) :: fires, ?_⟩
    rw [List.mapM_cons, next, others]
    rfl

/-- If every entry has a next fire, there is a soonest one, and something is due then. -/
theorem soonest_total (some' : schedule ≠ [])
    (total : ∀ entry ∈ schedule, ∃ fire, entry.nextFireAt now = .ok fire) :
    ∃ instant first left, soonest schedule now = .ok (instant, first :: left) := by
  obtain ⟨fires, mapped⟩ := mapM_total total
  obtain ⟨entries, -⟩ := fires_of_mapM mapped
  cases least : (fires.map Prod.fst).min? with
  | none =>
    rw [List.min?_eq_none_iff, List.map_eq_nil_iff] at least
    subst least
    exact absurd entries.symm some'
  | some instant =>
    have done : soonest schedule now =
        .ok (instant, (fires.filter fun fire => fire.1 = instant).map Prod.snd) := by
      simp only [soonest, mapped, bind, Except.bind, least]
    obtain ⟨⟨first, listed, next⟩, -, due⟩ := soonest_ok done
    have member : first ∈ (fires.filter fun fire => fire.1 = instant).map Prod.snd := by
      rw [due, List.mem_filter]
      exact ⟨listed, by simp [next, Except.toOption]⟩
    obtain ⟨head, left, split⟩ := List.exists_cons_of_ne_nil (List.ne_nil_of_mem member)
    exact ⟨instant, head, left, split ▸ done⟩

/-- The instants that some entry is scheduled at. -/
def instants (schedule : List ScheduleEntry) : Set Datetime :=
  {instant | ∃ entry ∈ schedule, entry.Scheduled instant}

/-- With an entry that can fire, the soonest instant is the first one that is scheduled,
and what is due is what is scheduled then. -/
theorem soonest_isLeast {entry : ScheduleEntry} (listed : entry ∈ schedule)
    (satisfiable : entry.Satisfiable) (done : soonest schedule now = .ok (instant, due)) :
    IsLeast {instant | instant ∈ instants schedule ∧ now < instant} instant ∧
      due = schedule.filter fun entry => entry.Scheduled instant := by
  obtain ⟨⟨first, member, fire⟩, below, rfl⟩ := soonest_ok done
  obtain ⟨own, next, soon⟩ := below entry listed
  have near : instant.1 ≤ now.1 + 24 * hour :=
    le_trans soon (ScheduleEntry.scheduled_of_ok satisfiable next).2
  have fires : ∀ other : ScheduleEntry, other.nextFireAt now = .ok instant →
      other.Scheduled instant := by
    intro other fires
    by_cases possible : other.Satisfiable
    · exact (ScheduleEntry.scheduled_of_ok possible fires).1
    · exact absurd near (ScheduleEntry.day_of_unsatisfiable possible fires).not_ge
  refine ⟨⟨⟨⟨first, member, fires first fire⟩, (ScheduleEntry.aligned_of_ok fire).1⟩, ?_⟩, ?_⟩
  · rintro other ⟨⟨some', there, scheduled⟩, after⟩
    obtain ⟨next, found, later⟩ := below some' there
    exact later.trans (ScheduleEntry.le_of_scheduled found scheduled after)
  · refine List.filter_congr fun other there => ?_
    obtain ⟨next, found, later⟩ := below other there
    rw [decide_eq_decide, found]
    constructor
    · intro same
      exact fires other (found.trans (congrArg _ (Option.some.inj same)))
    · intro scheduled
      have ahead := (ScheduleEntry.aligned_of_ok fire).1
      exact congrArg some (le_antisymm (ScheduleEntry.le_of_scheduled found scheduled ahead) later)

end NextFire

end QueueWorkflows
