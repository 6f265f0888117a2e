import Mathlib.Data.Int.ConditionallyCompleteOrder
import QueueWorkflows.Base.Pool
import QueueWorkflows.Base.Rounds
import QueueWorkflows.Engine.Scheduler

/-! The ticker of `scheduler`: it sleeps to the soonest instant of its schedule, enqueues
what is due then, and reads the clock again. A sleep may end early or late, and enqueueing
takes time. -/

namespace QueueWorkflows

open Rounds (Round)
open Transaction (Reach follow)

/-! ### The loop -/

/-- Why a row is enqueued. Of a tick, the instant it fires for and the reading of the clock
that released it are kept too, which the code does not write down. -/
inductive Reason where
  | boot
  | tick (instant reading : Datetime)
deriving DecidableEq

structure Enqueued where
  entry : ScheduleEntry
  reason : Reason
deriving DecidableEq

/-- `enqueue_boot_kick` leaves out the freshness entries. -/
def bootKick (schedule : List ScheduleEntry) : List ScheduleEntry :=
  schedule.filter fun entry => !entry.isFreshness

/-- Where `run_forever` stands. Its local variables `soonest` and `now` are the target and
the release of the round. -/
inductive Ticker.Stage where
  | boot (left : List ScheduleEntry)
  | top
  | waiting (round : Round Datetime) (due : List ScheduleEntry)
  | asleep (round : Round Datetime) (due : List ScheduleEntry)
  | enqueueing (round : Round Datetime) (left : List ScheduleEntry)
  | ended

/-- The ticker, the clock, and the rows it has enqueued; `rounds` are the completed
iterations, which the code does not keep. -/
structure Ticker where
  schedule : List ScheduleEntry
  clock : Datetime
  stop : Bool := false
  stage : Ticker.Stage
  jobs : List Enqueued := []
  rounds : List (Round Datetime) := []

namespace Ticker

def starts (schedule : List ScheduleEntry) (clock : Datetime) : Ticker where
  schedule := schedule
  clock := clock
  stage := .boot (bootKick schedule)

/-- The next action of the loop. A sleep ends at whatever time it ends. -/
def run (ticker : Ticker) : Option Ticker :=
  match ticker.stage with
  | .boot [] => some { ticker with stage := .top }
  | .boot (entry :: left) => some { ticker with
      stage := .boot left, jobs := ticker.jobs ++ [⟨entry, .boot⟩] }
  | .top =>
    if ticker.stop then some { ticker with stage := .ended }
    else if ticker.schedule = [] then some ticker
    else
      match soonest ticker.schedule ticker.clock with
      | .error _ => some { ticker with stage := .ended }
      | .ok (soonest, due) => some { ticker with
          stage := .waiting ⟨ticker.clock, soonest, ticker.clock⟩ due }
  | .waiting round due =>
    if ticker.stop then some { ticker with stage := .ended }
    else if round.release < round.target then some { ticker with stage := .asleep round due }
    else some { ticker with stage := .enqueueing round due }
  | .asleep round due => some { ticker with
      stage := .waiting { round with release := ticker.clock } due }
  | .enqueueing round [] => some { ticker with stage := .top, rounds := ticker.rounds ++ [round] }
  | .enqueueing round (entry :: left) => some { ticker with
      stage := .enqueueing round left
      jobs := ticker.jobs ++ [⟨entry, .tick round.target round.release⟩] }
  | .ended => none

/-- An exception out of `enqueue_ingest_job` ends the loop. -/
def raise (ticker : Ticker) : Option Ticker :=
  match ticker.stage with
  | .boot (_ :: _) | .enqueueing _ (_ :: _) => some { ticker with stage := .ended }
  | _ => none

inductive Label where
  | clock (now : Datetime)
  | stop
  | run
  | raise

def step (ticker : Ticker) : Label → Option Ticker
  | .clock now => if ticker.clock ≤ now then some { ticker with clock := now } else none
  | .stop => some { ticker with stop := true }
  | .run => ticker.run
  | .raise => ticker.raise

/-- The first hour of 1970. -/
def epoch : Datetime :=
  ⟨0, by decide⟩

/-- A ticker on this schedule gets here, started at that time. -/
def Reached (schedule : List ScheduleEntry) (start : Datetime) (ticker : Ticker) : Prop :=
  Reach step (fun _ _ => true) (starts schedule start) ticker

/-- How often an instant of an entry has been fired. -/
def fires (entry : ScheduleEntry) (instant : Datetime) (jobs : List Enqueued) : Nat :=
  jobs.countP fun job => job.entry = entry && match job.reason with
    | .boot => false
    | .tick fired _ => fired = instant

end Ticker

/-! ### What a ticker has enqueued -/

namespace Ticker

def booted (entry : ScheduleEntry) : Enqueued :=
  ⟨entry, .boot⟩

def ticked (round : Round Datetime) (entry : ScheduleEntry) : Enqueued :=
  ⟨entry, .tick round.target round.release⟩

/-- The entries that are due in a round. -/
def dueIn (schedule : List ScheduleEntry) (round : Round Datetime) : List ScheduleEntry :=
  match soonest schedule round.reading with
  | .ok (_, due) => due
  | .error _ => []

/-- The rows of these rounds. -/
def rowsOf (schedule : List ScheduleEntry) (rounds : List (Round Datetime)) : List Enqueued :=
  rounds.flatMap fun round => (dueIn schedule round).map (ticked round)

/-- The rows of the boot kick and of these rounds. -/
def written (schedule : List ScheduleEntry) (rounds : List (Round Datetime)) : List Enqueued :=
  (bootKick schedule).map booted ++ rowsOf schedule rounds

/-- Rounds of the loop, one after another from `start` on. -/
structure Follows (schedule : List ScheduleEntry) (start : Datetime)
    (rounds : List (Round Datetime)) : Prop where
  aims : ∀ round ∈ rounds, soonest schedule round.reading = .ok (round.target, dueIn schedule round)
  reached : ∀ round ∈ rounds, round.target ≤ round.release
  begun : ∀ round ∈ rounds, start ≤ round.reading
  ordered : rounds.Pairwise fun early late => early.release ≤ late.reading

/-- A round that is not over, behind these rounds. -/
structure InFlight (schedule : List ScheduleEntry) (start clock : Datetime)
    (rounds : List (Round Datetime)) (round : Round Datetime) : Prop where
  aims : soonest schedule round.reading = .ok (round.target, dueIn schedule round)
  begun : start ≤ round.reading
  later : ∀ early ∈ rounds, early.release ≤ round.reading
  past : round.release ≤ clock

/-- The rows in the middle of a round. -/
structure Partly (schedule : List ScheduleEntry) (start clock : Datetime)
    (rounds : List (Round Datetime)) (jobs : List Enqueued) (round : Round Datetime)
    (left : List ScheduleEntry) : Prop where
  inFlight : InFlight schedule start clock rounds round
  reached : round.target ≤ round.release
  jobs : ∃ early, dueIn schedule round = early ++ left ∧
    jobs = written schedule rounds ++ early.map (ticked round)

/-- The rows in the middle of the boot kick. -/
structure Booting (schedule : List ScheduleEntry) (rounds : List (Round Datetime))
    (jobs : List Enqueued) (left : List ScheduleEntry) : Prop where
  rounds : rounds = []
  jobs : ∃ early, bootKick schedule = early ++ left ∧ jobs = early.map booted

def Stage.Holds (schedule : List ScheduleEntry) (start clock : Datetime)
    (rounds : List (Round Datetime)) (jobs : List Enqueued) : Stage → Prop
  | .boot left => Booting schedule rounds jobs left
  | .top => jobs = written schedule rounds
  | .waiting round due | .asleep round due =>
    jobs = written schedule rounds ∧ InFlight schedule start clock rounds round ∧
      due = dueIn schedule round
  | .enqueueing round left => Partly schedule start clock rounds jobs round left
  | .ended => (∃ left, Booting schedule rounds jobs left) ∨ jobs = written schedule rounds ∨
      ∃ round left, Partly schedule start clock rounds jobs round left

structure Sound (schedule : List ScheduleEntry) (start : Datetime) (ticker : Ticker) : Prop where
  listed : ticker.schedule = schedule
  begun : start ≤ ticker.clock
  past : ∀ round ∈ ticker.rounds, round.release ≤ ticker.clock
  follows : Follows schedule start ticker.rounds
  stage : ticker.stage.Holds schedule start ticker.clock ticker.rounds ticker.jobs

section Invariant

variable {schedule : List ScheduleEntry} {start now : Datetime} {ticker after : Ticker}
  {label : Label} {round : Round Datetime} {rounds : List (Round Datetime)}

theorem InFlight.clock (inFlight : InFlight schedule start ticker.clock rounds round)
    (later : ticker.clock ≤ now) : InFlight schedule start now rounds round :=
  { inFlight with past := inFlight.past.trans later }

theorem Sound.clock (sound : Sound schedule start ticker) (later : ticker.clock ≤ now) :
    Sound schedule start { ticker with clock := now } where
  listed := sound.listed
  begun := sound.begun.trans later
  past round member := (sound.past round member).trans later
  follows := sound.follows
  stage := by
    have holds := sound.stage
    revert holds
    cases ticker.stage with
    | boot | top => exact id
    | waiting | asleep => exact fun ⟨jobs, inFlight, due⟩ => ⟨jobs, inFlight.clock later, due⟩
    | enqueueing => exact fun partly => ⟨partly.inFlight.clock later, partly.reached, partly.jobs⟩
    | ended =>
      rintro (booting | jobs | ⟨round, left, partly⟩)
      · exact .inl booting
      · exact .inr (.inl jobs)
      · exact .inr (.inr ⟨round, left, partly.inFlight.clock later, partly.reached, partly.jobs⟩)

/-- A round that is over is one more round of the chain. -/
theorem Follows.snoc (follows : Follows schedule start rounds)
    (aims : soonest schedule round.reading = .ok (round.target, dueIn schedule round))
    (reached : round.target ≤ round.release) (begun : start ≤ round.reading)
    (later : ∀ early ∈ rounds, early.release ≤ round.reading) :
    Follows schedule start (rounds ++ [round]) where
  aims := List.forall_mem_append.mpr ⟨follows.aims, List.forall_mem_singleton.mpr aims⟩
  reached := List.forall_mem_append.mpr ⟨follows.reached, List.forall_mem_singleton.mpr reached⟩
  begun := List.forall_mem_append.mpr ⟨follows.begun, List.forall_mem_singleton.mpr begun⟩
  ordered := by
    rw [List.pairwise_append]
    exact ⟨follows.ordered, List.pairwise_singleton _ _, by simpa using later⟩

theorem Sound.run (sound : Sound schedule start ticker) (moved : ticker.run = some after) :
    Sound schedule start after := by
  obtain ⟨listed, begun, past, follows, holds⟩ := sound
  unfold Ticker.run at moved
  cases stage : ticker.stage with
  | boot left =>
    rw [stage] at moved holds
    obtain ⟨none, early, split, jobs⟩ := holds
    cases left with
    | nil =>
      cases moved
      refine ⟨listed, begun, past, follows, ?_⟩
      simp [Stage.Holds, written, rowsOf, none, jobs, split]
    | cons entry left =>
      cases moved
      refine ⟨listed, begun, past, follows, none, early ++ [entry], by simp [split], ?_⟩
      simp [jobs, booted]
  | top =>
    rw [stage] at moved holds
    dsimp only at moved
    split at moved
    · cases moved
      exact ⟨listed, begun, past, follows, .inr (.inl holds)⟩
    · split at moved
      · cases moved
        exact ⟨listed, begun, past, follows, stage ▸ holds⟩
      · split at moved
        · cases moved
          exact ⟨listed, begun, past, follows, .inr (.inl holds)⟩
        · rename_i target due aims
          cases moved
          rw [listed] at aims
          have same : dueIn schedule ⟨ticker.clock, target, ticker.clock⟩ = due := by
            simp [dueIn, aims]
          refine ⟨listed, begun, past, follows, holds, ⟨?_, begun, past, le_rfl⟩, same.symm⟩
          rw [same]
          exact aims
  | waiting round due =>
    rw [stage] at moved holds
    obtain ⟨jobs, inFlight, rfl⟩ := holds
    dsimp only at moved
    split at moved
    · cases moved
      exact ⟨listed, begun, past, follows, .inr (.inl jobs)⟩
    · split at moved
      · cases moved
        exact ⟨listed, begun, past, follows, jobs, inFlight, rfl⟩
      · rename_i reached
        cases moved
        refine ⟨listed, begun, past, follows, inFlight, not_lt.mp reached, [], rfl, ?_⟩
        simpa using jobs
  | asleep round due =>
    rw [stage] at moved holds
    obtain ⟨jobs, inFlight, rfl⟩ := holds
    cases moved
    exact ⟨listed, begun, past, follows, jobs,
      ⟨inFlight.aims, inFlight.begun, inFlight.later, le_rfl⟩, rfl⟩
  | enqueueing round left =>
    rw [stage] at moved holds
    obtain ⟨inFlight, reached, early, split, jobs⟩ := holds
    cases left with
    | nil =>
      cases moved
      refine ⟨listed, begun, ?_, follows.snoc inFlight.aims reached inFlight.begun inFlight.later, ?_⟩
      · exact List.forall_mem_append.mpr ⟨past, List.forall_mem_singleton.mpr inFlight.past⟩
      · rw [List.append_nil] at split
        simp [Stage.Holds, written, rowsOf, jobs, split]
    | cons entry left =>
      cases moved
      refine ⟨listed, begun, past, follows, inFlight, reached, early ++ [entry], by simp [split], ?_⟩
      simp [jobs, ticked]
  | ended =>
    rw [stage] at moved
    cases moved

theorem Sound.raise (sound : Sound schedule start ticker) (moved : ticker.raise = some after) :
    Sound schedule start after := by
  obtain ⟨listed, begun, past, follows, holds⟩ := sound
  unfold Ticker.raise at moved
  split at moved
  · rename_i stage
    cases moved
    rw [stage] at holds
    exact ⟨listed, begun, past, follows, .inl ⟨_, holds⟩⟩
  · rename_i stage
    cases moved
    rw [stage] at holds
    exact ⟨listed, begun, past, follows, .inr (.inr ⟨_, _, holds⟩)⟩
  · cases moved

theorem Sound.step (sound : Sound schedule start ticker) (moved : step ticker label = some after) :
    Sound schedule start after := by
  cases label with
  | clock now =>
    simp only [Ticker.step] at moved
    split at moved
    · rename_i later
      cases moved
      exact sound.clock later
    · cases moved
  | stop =>
    cases moved
    exact ⟨sound.listed, sound.begun, sound.past, sound.follows, sound.stage⟩
  | run => exact sound.run moved
  | raise => exact sound.raise moved

theorem Sound.of_reached (reached : Reached schedule start ticker) : Sound schedule start ticker := by
  refine Reach.invariant ?_ (fun _ _ _ sound _ moved => sound.step moved) reached
  refine ⟨rfl, le_rfl, by simp [starts], ⟨by simp [starts], by simp [starts], by simp [starts], ?_⟩, ?_⟩
  · exact .nil
  · exact ⟨rfl, [], rfl, rfl⟩

/-- The rows of the completed rounds are there, and nothing but rows of these and of one
more round. -/
theorem Sound.tracks (sound : Sound schedule start ticker) :
    ∃ later, Follows schedule start (ticker.rounds ++ later) ∧
      (rowsOf schedule ticker.rounds).Sublist ticker.jobs ∧
      ticker.jobs.Sublist (written schedule (ticker.rounds ++ later)) := by
  have holds : Stage.ended.Holds schedule start ticker.clock ticker.rounds ticker.jobs := by
    have holds := sound.stage
    revert holds
    cases ticker.stage with
    | boot left => exact fun booting => .inl ⟨left, booting⟩
    | top => exact fun jobs => .inr (.inl jobs)
    | waiting | asleep => exact fun ⟨jobs, _⟩ => .inr (.inl jobs)
    | enqueueing round left => exact fun partly => .inr (.inr ⟨round, left, partly⟩)
    | ended => exact id
  rcases holds with ⟨left, none, early, split, jobs⟩ | jobs | ⟨round, left, partly⟩
  · refine ⟨[], by simpa using sound.follows, ?_, ?_⟩
    · simp [none, rowsOf]
    · rw [jobs, none, written, split, List.map_append, List.append_assoc]
      exact List.sublist_append_left _ _
  · refine ⟨[], by simpa using sound.follows, ?_, ?_⟩
    · rw [jobs]
      exact List.sublist_append_right _ _
    · rw [jobs, List.append_nil]
  · obtain ⟨inFlight, reached, early, split, jobs⟩ := partly
    refine ⟨[round], sound.follows.snoc inFlight.aims reached inFlight.begun inFlight.later, ?_, ?_⟩
    · rw [jobs]
      exact (List.sublist_append_right _ _).trans (List.sublist_append_left _ _)
    · have more : written schedule (ticker.rounds ++ [round]) =
          written schedule ticker.rounds ++ (dueIn schedule round).map (ticked round) := by
        simp [written, rowsOf]
      rw [jobs, more, split, List.map_append]
      exact (List.Sublist.refl _).append (List.sublist_append_left _ _)

/-- With an entry that can fire, the rounds follow the instants of the schedule. -/
theorem Follows.chain (follows : Follows schedule start rounds) {entry : ScheduleEntry}
    (listed : entry ∈ schedule) (satisfiable : entry.Satisfiable) :
    Rounds.Chain (instants schedule) start rounds where
  aimed round member :=
    ⟨(soonest_isLeast listed satisfiable (follows.aims round member)).1, follows.reached round member⟩
  begun := follows.begun
  ordered := follows.ordered

theorem Follows.dueIn_eq (follows : Follows schedule start rounds) {entry : ScheduleEntry}
    (listed : entry ∈ schedule) (satisfiable : entry.Satisfiable) (member : round ∈ rounds) :
    dueIn schedule round = schedule.filter fun entry => entry.Scheduled round.target :=
  (soonest_isLeast listed satisfiable (follows.aims round member)).2

variable {entry : ScheduleEntry} {instant reading : Datetime} {due : List ScheduleEntry}
  {early late : List Enqueued}

theorem fires_append : fires entry instant (early ++ late) =
    fires entry instant early + fires entry instant late :=
  List.countP_append

theorem fires_mono (entry : ScheduleEntry) (instant : Datetime) (within : early.Sublist late) :
    fires entry instant early ≤ fires entry instant late :=
  within.countP_le

theorem fires_booted : fires entry instant (due.map booted) = 0 := by
  rw [fires, List.countP_eq_zero]
  intro job listed
  obtain ⟨other, -, rfl⟩ := List.mem_map.mp listed
  simp [booted]

theorem fires_ticked : fires entry instant (due.map (ticked round)) =
    if round.target = instant then due.count entry else 0 := by
  rw [fires, List.countP_map]
  split
  · rename_i same
    rw [List.count]
    refine List.countP_congr fun other _ => ?_
    simp [ticked, same]
  · rename_i different
    rw [List.countP_eq_zero]
    intro other _
    simp [ticked, different]

theorem fires_rowsOf_cons : fires entry instant (rowsOf schedule (round :: rounds)) =
    (if round.target = instant then (dueIn schedule round).count entry else 0) +
      fires entry instant (rowsOf schedule rounds) := by
  rw [rowsOf, List.flatMap_cons, fires_append, fires_ticked]
  rfl

theorem fires_written : fires entry instant (written schedule rounds) =
    fires entry instant (rowsOf schedule rounds) := by
  rw [written, fires_append, fires_booted, Nat.zero_add]

theorem target_of_fires (fired : 0 < fires entry instant (rowsOf schedule rounds)) :
    instant ∈ rounds.map Round.target := by
  induction rounds with
  | nil => simp [rowsOf, fires] at fired
  | cons round rest ih =>
    rw [fires_rowsOf_cons] at fired
    rw [List.map_cons, List.mem_cons]
    by_cases same : round.target = instant
    · exact .inl same.symm
    · rw [if_neg same, Nat.zero_add] at fired
      exact .inr (ih fired)

/-- A round fires all that is scheduled at its target. -/
theorem fires_of_due
    (due : dueIn schedule round = schedule.filter fun entry => entry.Scheduled round.target)
    (scheduled : entry.Scheduled round.target) (member : round ∈ rounds) :
    schedule.count entry ≤ fires entry round.target (rowsOf schedule rounds) := by
  induction rounds with
  | nil => cases member
  | cons first rest ih =>
    rw [fires_rowsOf_cons]
    rcases List.mem_cons.mp member with rfl | behind
    · rw [if_pos rfl, due, List.count_filter (by simpa using scheduled)]
      exact Nat.le_add_right _ _
    · exact (ih behind).trans (Nat.le_add_left _ _)

/-- Rounds that aim at different instants fire an entry once for each. -/
theorem fires_rowsOf_le (apart : rounds.Pairwise fun early late => early.target < late.target)
    (few : ∀ round ∈ rounds, (dueIn schedule round).count entry ≤ schedule.count entry) :
    fires entry instant (rowsOf schedule rounds) ≤ schedule.count entry := by
  induction rounds with
  | nil => simp [rowsOf, fires]
  | cons round rest ih =>
    obtain ⟨first, others⟩ := List.pairwise_cons.mp apart
    rw [fires_rowsOf_cons]
    by_cases same : round.target = instant
    · have none : fires entry instant (rowsOf schedule rest) = 0 := by
        by_contra fired
        obtain ⟨later, member, target⟩ := List.mem_map.mp (target_of_fires (Nat.pos_of_ne_zero fired))
        exact (first later member).ne (same.trans target.symm)
      rw [if_pos same, none]
      exact few round (by simp)
    · rw [if_neg same, Nat.zero_add]
      exact ih others fun other member => few other (.tail _ member)

/-- A row that was enqueued is one of the boot kick, or one of a round. -/
theorem Sound.row_cases (sound : Sound schedule start ticker) {job : Enqueued}
    (listed : job ∈ ticker.jobs) :
    (job.reason = .boot ∧ job.entry ∈ bootKick schedule) ∨
      ∃ rounds, Follows schedule start rounds ∧ ∃ round ∈ rounds,
        job.entry ∈ dueIn schedule round ∧ job.reason = .tick round.target round.release := by
  obtain ⟨later, follows, -, within⟩ := sound.tracks
  rcases List.mem_append.mp (within.subset listed) with boot | row
  · obtain ⟨entry, kicked, rfl⟩ := List.mem_map.mp boot
    exact .inl ⟨rfl, kicked⟩
  · obtain ⟨round, member, inside⟩ := List.mem_flatMap.mp row
    obtain ⟨entry, due, rfl⟩ := List.mem_map.mp inside
    exact .inr ⟨_, follows, round, member, due, rfl⟩

/-- **Neither early nor twice.** Where every entry can fire, a tick fires an instant that its
entry is scheduled at, after the start, released by a reading that is not before it; and no
instant is fired more often than the entry is listed. -/
theorem fires_once_not_early (satisfiable : ∀ entry ∈ schedule, entry.Satisfiable)
    (reached : Reached schedule start ticker) :
    (∀ entry instant reading, ⟨entry, .tick instant reading⟩ ∈ ticker.jobs →
      entry ∈ schedule ∧ entry.Scheduled instant ∧ start < instant ∧ instant ≤ reading) ∧
    ∀ entry instant, fires entry instant ticker.jobs ≤ schedule.count entry := by
  have sound := Sound.of_reached reached
  constructor
  · intro entry instant reading listed
    rcases sound.row_cases listed with ⟨boot, -⟩ | ⟨rounds, follows, round, member, due, tick⟩
    · cases boot
    · cases tick
      have aims := follows.aims round member
      obtain ⟨⟨first, present, -⟩, -⟩ := soonest_ok aims
      obtain ⟨least, exactly⟩ := soonest_isLeast present (satisfiable first present) aims
      rw [exactly, List.mem_filter, decide_eq_true_eq] at due
      exact ⟨due.1, due.2, (follows.begun round member).trans_lt least.1.2,
        follows.reached round member⟩
  · intro entry instant
    obtain ⟨later, follows, -, within⟩ := sound.tracks
    have most := fires_mono entry instant within
    rw [fires_written] at most
    refine most.trans ?_
    cases empty : ticker.rounds ++ later with
    | nil => simp [rowsOf, fires]
    | cons first rest =>
      rw [empty] at follows
      obtain ⟨⟨present, listed, -⟩, -⟩ := soonest_ok (follows.aims first (by simp))
      have able := satisfiable present listed
      refine fires_rowsOf_le (follows.chain listed able).targets_lt fun round member => ?_
      rw [follows.dueIn_eq listed able member]
      exact List.filter_sublist.count_le entry

/-- **No fire is lost.** Every instant that some entry is scheduled at, between the start
and the last reading of the last completed iteration, has been fired, exactly if none goes
by before the first reading, and at most one between the first readings of two iterations
in a row, or between the first and the last reading of the last one. -/
theorem loses_no_fire (reached : Reached schedule start ticker) :
    (∀ last, ticker.rounds.getLast? = some last → ∀ entry ∈ schedule, ∀ instant,
      entry.Scheduled instant → start < instant → instant < last.release →
        schedule.count entry ≤ fires entry instant ticker.jobs) ↔
    (∀ first, ticker.rounds.head? = some first →
      instants schedule ∩ Set.Ioc start first.reading = ∅) ∧
      Rounds.Steady (instants schedule) ticker.rounds := by
  have sound := Sound.of_reached reached
  by_cases able : ∃ entry ∈ schedule, entry.Satisfiable
  · obtain ⟨first, listed, satisfiable⟩ := able
    rw [← Rounds.covered_iff (sound.follows.chain listed satisfiable)]
    constructor
    · rintro fired last ends instant ⟨entry, present, scheduled⟩ after before
      obtain ⟨later, follows, -, within⟩ := sound.tracks
      have once := fired last ends entry present instant scheduled after before
      have most := fires_mono entry instant within
      rw [fires_written] at most
      have counted : 0 < schedule.count entry := List.count_pos_iff.mpr present
      obtain ⟨round, member, rfl⟩ :=
        List.mem_map.mp (target_of_fires (counted.trans_le (once.trans most)))
      rcases List.mem_append.mp member with done | behind
      · exact List.mem_map_of_mem done
      · have order := (List.pairwise_append.mp follows.ordered).2.2 last
          (List.mem_of_getLast? ends) round behind
        have ahead := ((follows.chain listed satisfiable).aimed round member).ahead
        exact absurd before (order.trans ahead.le).not_gt
    · intro covered last ends entry present instant scheduled after before
      obtain ⟨later, -, within, -⟩ := sound.tracks
      obtain ⟨round, member, rfl⟩ := List.mem_map.mp
        (covered last ends instant ⟨entry, present, scheduled⟩ after before)
      refine le_trans ?_ (fires_mono _ _ within)
      exact fires_of_due (sound.follows.dueIn_eq listed satisfiable member) scheduled member
  · have none : instants schedule = ∅ := by
      rw [Set.eq_empty_iff_forall_notMem]
      rintro instant ⟨entry, listed, scheduled⟩
      exact able ⟨entry, listed, scheduled.satisfiable⟩
    refine iff_of_true ?_ ⟨by simp [none], none ▸ Rounds.steady_empty⟩
    intro last _ entry listed instant scheduled
    exact absurd ⟨entry, listed, scheduled.satisfiable⟩ able

/-- The boot kick is enqueued whole, unless something raises. -/
theorem boot_enqueued (left : List ScheduleEntry) (jobs : List Enqueued) :
    Reach step (fun _ _ => true) { schedule, clock := now, stage := .boot left, jobs }
      { schedule, clock := now, stage := .boot [], jobs := jobs ++ left.map booted } := by
  induction left generalizing jobs with
  | nil =>
    rw [List.map_nil, List.append_nil]
    exact .start
  | cons entry left ih =>
    have onward := ih (jobs ++ [booted entry])
    rw [List.append_assoc] at onward
    exact (Reach.start.next .run rfl rfl).trans onward

/-- What is soonest at the start can be fired. -/
theorem tick_reached {target : Datetime} {left : List ScheduleEntry}
    (aims : soonest schedule start = .ok (target, entry :: left)) :
    ∃ ticker, Reached schedule start ticker ∧ ⟨entry, .tick target target⟩ ∈ ticker.jobs := by
  obtain ⟨⟨first, listed, next⟩, -⟩ := soonest_ok aims
  have ahead := (ScheduleEntry.aligned_of_ok next).1
  have some' : schedule ≠ [] := List.ne_nil_of_mem listed
  let jobs := (bootKick schedule).map booted
  have booted : Reached schedule start { schedule, clock := start, stage := .boot [], jobs } :=
    boot_enqueued (bootKick schedule) []
  have top := booted.next .run rfl rfl
  have aimed : Reached schedule start {
      schedule, clock := start, stage := .waiting ⟨start, target, start⟩ (entry :: left), jobs } :=
    top.next .run rfl (by simp [step, Ticker.run, some', aims])
  have slept : Reached schedule start {
      schedule, clock := start, stage := .asleep ⟨start, target, start⟩ (entry :: left), jobs } :=
    aimed.next .run rfl (by simp [step, Ticker.run, ahead])
  have woken : Reached schedule start {
      schedule, clock := target, stage := .asleep ⟨start, target, start⟩ (entry :: left), jobs } :=
    slept.next (.clock target) rfl (by simp [step, ahead.le])
  have read := woken.next .run rfl rfl
  have due : Reached schedule start {
      schedule, clock := target, stage := .enqueueing ⟨start, target, target⟩ (entry :: left)
      jobs } :=
    read.next .run rfl (by simp [step, Ticker.run])
  exact ⟨_, due.next .run rfl rfl, by simp⟩

/-- **Next-fire exactness.** The next fire of an entry that can fire is the first instant it
is scheduled at; and an entry that cannot fire is never enqueued, by the boot kick or by a
tick, exactly if it is a freshness entry and another entry of the schedule can fire. -/
theorem next_fire_exact
    (minutes : ∀ entry ∈ schedule, 0 ≤ entry.minute ∧ entry.minute ≤ 59) :
    (∀ entry ∈ schedule,
      (entry.Satisfiable → ∀ now instant, entry.nextFireAt now = .ok instant ↔
        IsLeast {instant | entry.Scheduled instant ∧ now < instant} instant) ∧
      (¬ entry.Satisfiable → ∀ start ticker, Reached schedule start ticker →
        ∀ job ∈ ticker.jobs, job.entry ≠ entry)) ↔
    ∀ entry ∈ schedule, ¬ entry.Satisfiable →
      entry.isFreshness = true ∧ ∃ other ∈ schedule, other.Satisfiable := by
  constructor
  · intro exact' entry listed unable
    constructor
    · by_contra stale
      have booted : Reached schedule epoch {
          schedule, clock := epoch, stage := .boot [], jobs := (bootKick schedule).map booted } :=
        boot_enqueued (bootKick schedule) []
      have kicked : entry ∈ bootKick schedule := by
        rw [bootKick, List.mem_filter]
        exact ⟨listed, by simpa using stale⟩
      exact (exact' entry listed).2 unable _ _ booted _ (List.mem_map_of_mem kicked) rfl
    · by_contra none
      push Not at none
      obtain ⟨target, first, left, aims⟩ :
          ∃ target first left, soonest schedule epoch = .ok (target, first :: left) :=
        soonest_total (List.ne_nil_of_mem listed) fun other member =>
          ScheduleEntry.nextFireAt_total (minutes other member).1 (minutes other member).2 (by decide)
      obtain ⟨ticker, reached, fired⟩ := tick_reached aims
      have present : first ∈ schedule := by
        obtain ⟨-, -, due⟩ := soonest_ok aims
        exact List.mem_of_mem_filter (due ▸ List.mem_cons_self)
      exact (exact' first present).2 (none first present) _ _ reached _ fired rfl
  · intro apart entry listed
    obtain ⟨low, high⟩ := minutes entry listed
    refine ⟨fun able now instant => ScheduleEntry.nextFireAt_ok_iff low high able, ?_⟩
    rintro unable start ticker reached job row rfl
    obtain ⟨fresh, other, present, able⟩ := apart _ listed unable
    rcases (Sound.of_reached reached).row_cases row with
      ⟨-, kicked⟩ | ⟨rounds, follows, round, member, due, -⟩
    · rw [bootKick, List.mem_filter, fresh] at kicked
      exact absurd kicked.2 (by decide)
    · rw [follows.dueIn_eq present able member, List.mem_filter, decide_eq_true_eq] at due
      exact unable due.2.satisfiable

end Invariant

end Ticker

/-! ### Samples -/

open Ticker

/-- So many minutes into the epoch. -/
def Sample.clockAt (minutes : Nat) (early : minutes ≤ 1440) : Datetime :=
  ⟨minutes * (60 * 1000000), by
    simp only [datetimeMin, datetimeMax]
    omega⟩

def Sample.fetch : ScheduleEntry where
  name := "fetch"
  minute := 10
  taskName := "fetch"
  queue := "fetch"

def Sample.load : ScheduleEntry where
  name := "load"
  minute := 20
  taskName := "load"
  queue := "load"

/-- No hour is allowed, and the boot kick leaves it out. -/
def Sample.dormant : ScheduleEntry where
  name := "dormant"
  minute := 5
  taskName := "freshness_probe"
  queue := "load"
  hours := some ∅

theorem fetch_fires_exactly :
    (∀ entry ∈ [Sample.fetch], 0 ≤ entry.minute ∧ entry.minute ≤ 59) ∧
    ((∀ entry ∈ [Sample.fetch],
      (entry.Satisfiable → ∀ now instant, entry.nextFireAt now = .ok instant ↔
        IsLeast {instant | entry.Scheduled instant ∧ now < instant} instant) ∧
      (¬ entry.Satisfiable → ∀ start ticker, Reached [Sample.fetch] start ticker →
        ∀ job ∈ ticker.jobs, job.entry ≠ entry)) ↔
    ∀ entry ∈ [Sample.fetch], ¬ entry.Satisfiable →
      entry.isFreshness = true ∧ ∃ other ∈ [Sample.fetch], other.Satisfiable) :=
  ⟨by decide, next_fire_exact (by decide)⟩

/-- An entry without an allowed hour is fired a day after the start. -/
theorem dormant_entry_fired : ¬ ∀ schedule : List ScheduleEntry,
    (∀ entry ∈ schedule, 0 ≤ entry.minute ∧ entry.minute ≤ 59) → ∀ entry ∈ schedule,
      (entry.Satisfiable → ∀ now instant, entry.nextFireAt now = .ok instant ↔
        IsLeast {instant | entry.Scheduled instant ∧ now < instant} instant) ∧
      (¬ entry.Satisfiable → ∀ start ticker, Reached schedule start ticker →
        ∀ job ∈ ticker.jobs, job.entry ≠ entry) := by
  intro exact'
  have unable : ¬ Sample.dormant.Satisfiable := by
    intro able
    obtain ⟨allowed, member, -⟩ := able ∅ rfl
    cases member
  have aims : soonest [Sample.dormant] epoch =
      .ok (⟨24 * hour + 5 * (60 * 1000000), by decide⟩, [Sample.dormant]) := by decide +kernel
  obtain ⟨ticker, reached, fired⟩ := tick_reached aims
  exact (exact' [Sample.dormant] (by decide) Sample.dormant (by simp)).2 unable _ _ reached _ fired rfl

/-- Both entries listed; the first sleep ends at this minute. -/
def Sample.labels (minutes : Nat) (early : minutes ≤ 1440) : List Label :=
  [.run, .run, .run, .run, .run, .clock (Sample.clockAt minutes early), .run, .run, .run, .run]

def Sample.ticked (minutes : Nat) (early : minutes ≤ 1440) : Ticker :=
  (follow step (fun _ _ => true) (starts [Sample.fetch, Sample.load] epoch)
    (Sample.labels minutes early)).getD (starts [Sample.fetch, Sample.load] epoch)

theorem punctual_ticker_loses_no_fire :
    Reached [Sample.fetch, Sample.load] epoch (Sample.ticked 11 (by decide)) ∧
    ((∀ last, (Sample.ticked 11 (by decide)).rounds.getLast? = some last →
      ∀ entry ∈ [Sample.fetch, Sample.load], ∀ instant, entry.Scheduled instant →
        epoch < instant → instant < last.release →
          [Sample.fetch, Sample.load].count entry ≤
            fires entry instant (Sample.ticked 11 (by decide)).jobs) ↔
    (∀ first, (Sample.ticked 11 (by decide)).rounds.head? = some first →
      instants [Sample.fetch, Sample.load] ∩ Set.Ioc epoch first.reading = ∅) ∧
      Rounds.Steady (instants [Sample.fetch, Sample.load])
        (Sample.ticked 11 (by decide)).rounds) := by
  have reached : Reached [Sample.fetch, Sample.load] epoch (Sample.ticked 11 (by decide)) :=
    .follow_getD (Sample.labels 11 (by decide)) (by decide +kernel)
  exact ⟨reached, loses_no_fire reached⟩

/-- The sleep to minute 10 ends at minute 25, and minute 20 has gone by. -/
theorem overslept_fire_lost : ¬ ∀ schedule start ticker, Reached schedule start ticker →
    ∀ last, ticker.rounds.getLast? = some last → ∀ entry ∈ schedule, ∀ instant,
      entry.Scheduled instant → start < instant → instant < last.release →
        schedule.count entry ≤ fires entry instant ticker.jobs := by
  intro fired
  have reached : Reached [Sample.fetch, Sample.load] epoch (Sample.ticked 25 (by decide)) :=
    .follow_getD (Sample.labels 25 (by decide)) (by decide +kernel)
  have lost := fired _ _ _ reached
    ⟨epoch, Sample.clockAt 10 (by decide), Sample.clockAt 25 (by decide)⟩ (by decide +kernel)
    Sample.load (by decide) (Sample.clockAt 20 (by decide)) (by decide +kernel) (by decide +kernel)
    (by decide +kernel)
  exact absurd lost (by decide +kernel)

theorem fetch_fired_once :
    (∀ entry ∈ [Sample.fetch, Sample.load], entry.Satisfiable) ∧
    (∀ entry instant reading,
      ⟨entry, .tick instant reading⟩ ∈ (Sample.ticked 11 (by decide)).jobs →
        entry ∈ [Sample.fetch, Sample.load] ∧ entry.Scheduled instant ∧ epoch < instant ∧
          instant ≤ reading) ∧
    ∀ entry instant, fires entry instant (Sample.ticked 11 (by decide)).jobs ≤
      [Sample.fetch, Sample.load].count entry := by
  have able : ∀ entry ∈ [Sample.fetch, Sample.load], entry.Satisfiable := by
    simp [Sample.fetch, Sample.load, ScheduleEntry.Satisfiable]
  have reached : Reached [Sample.fetch, Sample.load] epoch (Sample.ticked 11 (by decide)) :=
    .follow_getD (Sample.labels 11 (by decide)) (by decide +kernel)
  exact ⟨able, fires_once_not_early able reached⟩

end QueueWorkflows
