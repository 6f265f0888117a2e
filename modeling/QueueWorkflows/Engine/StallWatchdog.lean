import QueueWorkflows.Base.Pool
import Mathlib.Algebra.Order.Ring.Unbundled.Rat
import Mathlib.Algebra.Order.Group.Unbundled.Abs
import Mathlib.Tactic.Linarith

/-! The no-progress watchdog of `claim_worker`: a deadline that every beat pushes out, and
a confirmation against the GPU and the memory before the worker is stopped. -/

namespace QueueWorkflows

open Transaction (Reach follow)

/-- What a sampler gives; `none` where it returns `None` or raises. -/
abbrev Reading := Option Int

/-- `_sample_gpu`: a failed sample counts as 0. -/
def gpuSample (reading : Reading) : Int :=
  reading.getD 0

/-- Both readings are there, and further apart than the delta. -/
def ramMoved (ramDeltaMb : Int) : Reading → Reading → Bool
  | some anchor, some now => decide (ramDeltaMb < |now - anchor|)
  | _, _ => false

structure StallWatchdog where
  stallTimeoutS : ℚ := 120
  idlePct : Int := 5
  ramDeltaMb : Int := 5120
  confirmSamples : Int := 3

namespace StallWatchdog

variable (watchdog : StallWatchdog)

/-! ### The confirmation -/

/-- The samples after the first one: `max(1, int(confirm_samples)) - 1`. -/
def rounds : Nat :=
  (max 1 watchdog.confirmSamples - 1).toNat

/-- The local variables of `_confirm_wedged`. -/
structure Confirmation where
  ramAnchor : Reading
  maxUtil : Int
  ramNow : Reading

/-- A turn of its loop: the wait ends early on a stop, or one sample of each is taken. -/
inductive Round where
  | stopped
  | sampled (gpu ram : Reading)

namespace Confirmation

/-- The first reading of each. -/
def opened (ram gpu : Reading) : Confirmation where
  ramAnchor := ram
  maxUtil := gpuSample gpu
  ramNow := ram

def withGpu (gpu : Reading) (found : Confirmation) : Confirmation :=
  { found with
    maxUtil := if found.maxUtil < gpuSample gpu then gpuSample gpu else found.maxUtil }

def withRam (ram : Reading) (found : Confirmation) : Confirmation :=
  { found with ramNow := ram }

/-- The loop; `none` where it was stopped. -/
def sample : Confirmation → List Round → Option Confirmation
  | found, [] => some found
  | _, .stopped :: _ => none
  | found, .sampled gpu ram :: rest => sample ((found.withGpu gpu).withRam ram) rest

/-- GPU idle, and RAM static between the first reading and the last. -/
def wedged (found : Confirmation) : Bool :=
  decide (found.maxUtil ≤ watchdog.idlePct) &&
    !ramMoved watchdog.ramDeltaMb found.ramAnchor found.ramNow

end Confirmation

/-- The turns that the loop takes. -/
def window (turns : Nat → Round) : List Round :=
  (List.range watchdog.rounds).map turns

/-- `_confirm_wedged`, on the first readings and on what each further turn brings. -/
def confirmWedged (ram gpu : Reading) (turns : Nat → Round) : Bool :=
  match (Confirmation.opened ram gpu).sample (watchdog.window turns) with
  | none => false
  | some found => found.wedged watchdog

/-- The GPU readings of a window. -/
def gpuReadings (gpu : Reading) (window : List Round) : List Reading :=
  gpu :: window.filterMap fun
    | .sampled gpu _ => some gpu
    | .stopped => none

/-- The RAM readings of a window, the first one included. -/
def ramReadings (ram : Reading) (window : List Round) : List Reading :=
  ram :: window.filterMap fun
    | .sampled _ ram => some ram
    | .stopped => none

/-- The last RAM reading of a window. -/
def lastRam (ram : Reading) (window : List Round) : Reading :=
  (ramReadings ram window).getLastD none

section Confirm

variable {watchdog} {ram gpu : Reading} {window : List Round} {found last : Confirmation}

theorem Confirmation.withGpu_le {limit : Int} :
    (found.withGpu gpu).maxUtil ≤ limit ↔ found.maxUtil ≤ limit ∧ gpuSample gpu ≤ limit := by
  simp only [withGpu]
  split <;> omega

theorem Confirmation.sample_eq_none : found.sample window = none ↔ .stopped ∈ window := by
  induction window generalizing found with
  | nil => simp [sample]
  | cons turn rest ih =>
    cases turn with
    | stopped => simp [sample]
    | sampled gpu ram => simp [sample, ih]

/-- The loop ends with the greatest GPU sample, and of the RAM readings the first and the
last. -/
theorem Confirmation.sample_some (ends : found.sample window = some last) :
    last.ramAnchor = found.ramAnchor ∧ last.ramNow = lastRam found.ramNow window ∧
      ∀ limit, last.maxUtil ≤ limit ↔
        found.maxUtil ≤ limit ∧ ∀ gpu ram, .sampled gpu ram ∈ window → gpuSample gpu ≤ limit := by
  induction window generalizing found with
  | nil =>
    cases ends
    exact ⟨rfl, rfl, by simp⟩
  | cons turn rest ih =>
    cases turn with
    | stopped => cases ends
    | sampled gpu ram =>
      obtain ⟨anchor, now, utils⟩ := ih ends
      refine ⟨anchor, ?_, fun limit => ?_⟩
      · rw [now]
        simp [lastRam, ramReadings, withRam, withGpu]
      · rw [utils limit]
        have first : ((found.withGpu gpu).withRam ram).maxUtil ≤ limit ↔
            found.maxUtil ≤ limit ∧ gpuSample gpu ≤ limit := withGpu_le
        rw [first]
        constructor
        · rintro ⟨⟨before, here⟩, later⟩
          refine ⟨before, fun util memory member => ?_⟩
          rcases List.mem_cons.mp member with same | inside
          · cases same
            exact here
          · exact later util memory inside
        · rintro ⟨before, all⟩
          exact ⟨⟨before, all gpu ram List.mem_cons_self⟩, fun util memory inside =>
            all util memory (List.mem_cons_of_mem _ inside)⟩

theorem forall_gpuReadings {limit : Int} :
    (∀ reading ∈ gpuReadings gpu window, gpuSample reading ≤ limit) ↔ gpuSample gpu ≤ limit ∧
      ∀ util memory, .sampled util memory ∈ window → gpuSample util ≤ limit := by
  unfold gpuReadings
  rw [List.forall_mem_cons]
  refine and_congr_right fun _ => ⟨fun all util memory member => ?_, fun all reading member => ?_⟩
  · exact all util (List.mem_filterMap.mpr ⟨_, member, rfl⟩)
  · obtain ⟨turn, inside, same⟩ := List.mem_filterMap.mp member
    cases turn with
    | stopped => cases same
    | sampled util memory =>
      cases same
      exact all _ memory inside

theorem confirmWedged_iff {turns : Nat → Round} :
    confirmWedged watchdog ram gpu turns = true ↔ .stopped ∉ watchdog.window turns ∧
      (∀ reading ∈ gpuReadings gpu (watchdog.window turns), gpuSample reading ≤ watchdog.idlePct) ∧
      ramMoved watchdog.ramDeltaMb ram (lastRam ram (watchdog.window turns)) = false := by
  unfold confirmWedged
  rw [forall_gpuReadings]
  cases ends : (Confirmation.opened ram gpu).sample (watchdog.window turns) with
  | none => simp [Confirmation.sample_eq_none.mp ends]
  | some last =>
    have running : .stopped ∉ watchdog.window turns := by
      intro stopped
      rw [Confirmation.sample_eq_none.mpr stopped] at ends
      cases ends
    obtain ⟨anchor, now, utils⟩ := Confirmation.sample_some ends
    have opened : (Confirmation.opened ram gpu).maxUtil = gpuSample gpu := rfl
    simp only [Confirmation.wedged, Bool.and_eq_true, decide_eq_true_eq, Bool.not_eq_true', anchor,
      now, utils, opened, running]
    simp [Confirmation.opened]

/-- **The confirmation rule.** Where the confirmation says "wedged", every GPU sample was
idle and no RAM reading of the window was away from the first by more than the delta: this
holds unless all the GPU samples are idle and the RAM readings moved and came back. -/
theorem confirmed_iff_steady {turns : Nat → Round} :
    (confirmWedged watchdog ram gpu turns = true →
      (∀ reading ∈ gpuReadings gpu (watchdog.window turns),
        gpuSample reading ≤ watchdog.idlePct) ∧
      ∀ reading ∈ ramReadings ram (watchdog.window turns),
        ramMoved watchdog.ramDeltaMb ram reading = false) ↔
    .stopped ∈ watchdog.window turns ∨
      (∃ reading ∈ gpuReadings gpu (watchdog.window turns),
        watchdog.idlePct < gpuSample reading) ∨
      ramMoved watchdog.ramDeltaMb ram (lastRam ram (watchdog.window turns)) = true ∨
      ∀ reading ∈ ramReadings ram (watchdog.window turns),
        ramMoved watchdog.ramDeltaMb ram reading = false := by
  rw [confirmWedged_iff]
  constructor
  · intro sound
    by_contra none
    simp only [not_or, not_exists, not_and, not_lt, Bool.not_eq_true] at none
    obtain ⟨running, idle, back, moved⟩ := none
    exact moved (sound ⟨running, idle, back⟩).2
  · rintro condition ⟨running, idle, back⟩
    rcases condition with stopped | ⟨reading, member, busy⟩ | moved | steady
    · exact absurd stopped running
    · exact absurd (idle reading member) (not_le.mpr busy)
    · rw [back] at moved
      cases moved
    · exact ⟨idle, steady⟩

end Confirm

/-- The memory goes up by 8 GB and back within the window. -/
theorem moved_memory_confirmed : ¬ ∀ (watchdog : StallWatchdog) ram gpu turns,
    confirmWedged watchdog ram gpu turns = true →
      (∀ reading ∈ gpuReadings gpu (watchdog.window turns),
        gpuSample reading ≤ watchdog.idlePct) ∧
      ∀ reading ∈ ramReadings ram (watchdog.window turns),
        ramMoved watchdog.ramDeltaMb ram reading = false := by
  intro promised
  have all := promised {} (some 1000) (some 0)
    (fun turn => .sampled (some 0) (some (if turn = 0 then 9000 else 1000))) (by decide)
  exact absurd (all.2 (some 9000) (by decide)) (by decide)

/-! ### The loop -/

/-- Where the thread stands in `_loop` and in the confirmation it calls. -/
inductive Place where
  | top
  | compare (deadline : Option ℚ)
  | anchor
  | gauge (ram : Reading)
  | pause (turn : Nat) (found : Confirmation)
  | sampleGpu (turn : Nat) (found : Confirmation)
  | sampleRam (turn : Nat) (found : Confirmation)
  | trip
  | rearm
  | wait
  | tripped
  | returned

/-- A trip, with the beats there had been by then; the first `heard` of them were there
when the deadline was read. -/
structure Trip where
  time : ℚ
  beats : List ℚ
  heard : Nat

/-- The watchdog's fields, the thread, and the clock. `beats` are the times of all beats;
the code keeps neither them nor `heard`. -/
structure Watch where
  now : ℚ
  deadline : Option ℚ := none
  stop : Bool := false
  place : Place := .top
  beats : List ℚ := []
  heard : Nat := 0
  trip : Option Trip := none

namespace Watch

/-- `beat`, under the lock. -/
def beat (watch : Watch) : Watch :=
  { watch with
    deadline := some (watch.now + watchdog.stallTimeoutS), beats := watch.beats ++ [watch.now] }

/-- The next action of the thread; a sampler it calls gives `reading`. -/
def loop (reading : Reading) (watch : Watch) : Option Watch :=
  match watch.place with
  | .top =>
    if watch.stop then some { watch with place := .returned }
    else some { watch with place := .compare watch.deadline, heard := watch.beats.length }
  | .compare deadline =>
    if deadline.any fun limit => limit ≤ watch.now then some { watch with place := .anchor }
    else some { watch with place := .wait }
  | .anchor => some { watch with place := .gauge reading }
  | .gauge ram => some { watch with place := .pause 0 (.opened ram reading) }
  | .pause turn found =>
    if turn < watchdog.rounds then
      if watch.stop then some { watch with place := .rearm }
      else some { watch with place := .sampleGpu turn found }
    else if found.wedged watchdog then some { watch with place := .trip }
    else some { watch with place := .rearm }
  | .sampleGpu turn found => some { watch with place := .sampleRam turn (found.withGpu reading) }
  | .sampleRam turn found => some { watch with place := .pause (turn + 1) (found.withRam reading) }
  | .trip => some { watch with
      place := .tripped, trip := some ⟨watch.now, watch.beats, watch.heard⟩ }
  | .rearm => some { watch with
      place := .wait, deadline := some (watch.now + watchdog.stallTimeoutS) }
  | .wait => some { watch with place := .top }
  | .tripped | .returned => none

end Watch

inductive Label where
  | clock (now : ℚ)
  | beat
  | stop
  | loop (reading : Reading)

def step (watch : Watch) : Label → Option Watch
  | .clock now => if watch.now ≤ now then some { watch with now := now } else none
  | .beat => some (watch.beat watchdog)
  | .stop => some { watch with stop := true }
  | .loop reading => watch.loop watchdog reading

/-- What a thread at this place knows of the deadline it has read. -/
def Place.Holds (watch : Watch) : Place → Prop
  | .compare deadline => ∀ beat ∈ watch.beats.take watch.heard,
      ∃ limit, deadline = some limit ∧ beat + watchdog.stallTimeoutS ≤ limit
  | .anchor | .gauge _ | .pause _ _ | .sampleGpu _ _ | .sampleRam _ _ | .trip =>
    ∀ beat ∈ watch.beats.take watch.heard, beat + watchdog.stallTimeoutS ≤ watch.now
  | _ => True

/-- The deadline is a full timeout away from every beat, and so was the one that was read. -/
structure Sound (watch : Watch) : Prop where
  past : ∀ beat ∈ watch.beats, beat ≤ watch.now
  deadline : ∀ beat ∈ watch.beats,
    ∃ limit, watch.deadline = some limit ∧ beat + watchdog.stallTimeoutS ≤ limit
  heard : watch.heard ≤ watch.beats.length
  place : watch.place.Holds watchdog watch
  trip : ∀ trip, watch.trip = some trip →
    ∀ beat ∈ trip.beats.take trip.heard, beat + watchdog.stallTimeoutS ≤ trip.time

/-- What the loop of the confirmation has found comes from the samples it has taken, and a
thread about to trip has had its confirmation. -/
def Place.Confirmed : Place → Prop
  | .pause turn found => turn ≤ watchdog.rounds ∧ ∃ ram gpu window,
    window.length = turn ∧ (Confirmation.opened ram gpu).sample window = some found
  | .sampleGpu turn found => turn < watchdog.rounds ∧ ∃ ram gpu window,
    window.length = turn ∧ (Confirmation.opened ram gpu).sample window = some found
  | .sampleRam turn found => turn < watchdog.rounds ∧ ∃ ram gpu window util before,
    window.length = turn ∧ (Confirmation.opened ram gpu).sample window = some before ∧
      found = before.withGpu util
  | .trip | .tripped => ∃ ram gpu turns, confirmWedged watchdog ram gpu turns = true
  | _ => True

section Loop

variable {watchdog} {watch after : Watch} {label : Label} {start : ℚ} {reading : Reading}

theorem Sound.moved (sound : Sound watchdog watch) {place : Place}
    (holds : place.Holds watchdog watch) : Sound watchdog { watch with place := place } :=
  ⟨sound.past, sound.deadline, sound.heard, holds, sound.trip⟩

theorem Sound.clock (sound : Sound watchdog watch) {now : ℚ} (later : watch.now ≤ now) :
    Sound watchdog { watch with now := now } where
  past beat member := (sound.past beat member).trans later
  deadline := sound.deadline
  heard := sound.heard
  place := by
    have holds := sound.place
    revert holds
    cases watch.place with
    | anchor | gauge | pause | sampleGpu | sampleRam | trip =>
      exact fun holds beat member => (holds beat member).trans later
    | _ => exact id
  trip := sound.trip

theorem Sound.beat (sound : Sound watchdog watch) : Sound watchdog (watch.beat watchdog) where
  past beat member := by
    rcases List.mem_append.mp member with old | new
    · exact sound.past beat old
    · exact (List.mem_singleton.mp new).le
  deadline beat member := by
    refine ⟨_, rfl, ?_⟩
    rcases List.mem_append.mp member with old | new
    · have before := sound.past beat old
      linarith
    · rw [List.mem_singleton.mp new]
  heard := by
    have heard := sound.heard
    simp only [Watch.beat, List.length_append]
    omega
  place := by
    have same : (watch.beats ++ [watch.now]).take watch.heard = watch.beats.take watch.heard :=
      List.take_append_of_le_length sound.heard
    have holds := sound.place
    simp only [Watch.beat]
    revert holds
    cases watch.place <;> simp only [Place.Holds, same] <;> exact id
  trip := sound.trip

theorem Sound.loop (sound : Sound watchdog watch)
    (moved : watch.loop watchdog reading = some after) : Sound watchdog after := by
  have holds := sound.place
  unfold Watch.loop at moved
  cases place : watch.place with
  | top =>
    rw [place] at moved
    dsimp only at moved
    split at moved <;> cases moved
    · exact sound.moved trivial
    · refine ⟨sound.past, sound.deadline, le_rfl, fun beat member => ?_, sound.trip⟩
      exact sound.deadline beat (List.mem_of_mem_take member)
  | compare deadline =>
    rw [place] at moved holds
    dsimp only at moved
    split at moved <;> cases moved
    · rename_i due
      refine sound.moved fun beat member => ?_
      obtain ⟨limit, rfl, apart⟩ := holds beat member
      have reached : limit ≤ watch.now := by simpa using due
      exact apart.trans reached
    · exact sound.moved trivial
  | anchor | gauge | sampleGpu | sampleRam =>
    rw [place] at moved holds
    cases moved
    exact sound.moved holds
  | pause turn found =>
    rw [place] at moved holds
    dsimp only at moved
    split at moved
    · split at moved <;> cases moved
      · exact sound.moved trivial
      · exact sound.moved holds
    · split at moved <;> cases moved
      · exact sound.moved holds
      · exact sound.moved trivial
  | trip =>
    rw [place] at moved holds
    cases moved
    refine ⟨sound.past, sound.deadline, sound.heard, trivial, ?_⟩
    rintro trip ⟨⟩
    exact holds
  | rearm =>
    rw [place] at moved
    cases moved
    refine ⟨sound.past, fun beat member => ⟨_, rfl, ?_⟩, sound.heard, trivial, sound.trip⟩
    have before := sound.past beat member
    linarith
  | wait =>
    rw [place] at moved
    cases moved
    exact sound.moved trivial
  | tripped | returned =>
    rw [place] at moved
    cases moved

theorem Sound.step (sound : Sound watchdog watch)
    (stepped : step watchdog watch label = some after) : Sound watchdog after := by
  cases label with
  | clock now =>
    simp only [StallWatchdog.step] at stepped
    split at stepped
    · rename_i later
      cases stepped
      exact sound.clock later
    · cases stepped
  | beat =>
    cases stepped
    exact sound.beat
  | stop =>
    cases stepped
    exact ⟨sound.past, sound.deadline, sound.heard, sound.place, sound.trip⟩
  | loop reading => exact sound.loop stepped

theorem Confirmation.sample_append {found last : Confirmation} {window : List Round}
    {gpu ram : Reading} (ends : found.sample window = some last) :
    found.sample (window ++ [.sampled gpu ram]) = some ((last.withGpu gpu).withRam ram) := by
  induction window generalizing found with
  | nil =>
    cases ends
    rfl
  | cons turn rest ih =>
    cases turn with
    | stopped => cases ends
    | sampled _ _ => exact ih ends

/-- A window of full length that ends in "wedged" is a confirmation. -/
theorem confirmed_of_window {ram gpu : Reading} {window : List Round} {found : Confirmation}
    (full : window.length = watchdog.rounds)
    (ends : (Confirmation.opened ram gpu).sample window = some found)
    (wedged : found.wedged watchdog = true) :
    confirmWedged watchdog ram gpu (fun turn => window.getD turn .stopped) = true := by
  have same : watchdog.window (fun turn => window.getD turn .stopped) = window := by
    refine List.ext_getElem (by simp [StallWatchdog.window, full]) fun turn _ inside => ?_
    simp [StallWatchdog.window, inside]
  unfold confirmWedged
  rw [same, ends]
  exact wedged

theorem confirmed_loop (held : watch.place.Confirmed watchdog)
    (moved : watch.loop watchdog reading = some after) : after.place.Confirmed watchdog := by
  unfold Watch.loop at moved
  cases place : watch.place with
  | top | compare deadline =>
    rw [place] at moved
    dsimp only at moved
    split at moved <;> cases moved <;> trivial
  | anchor | rearm | wait =>
    rw [place] at moved
    cases moved
    trivial
  | gauge ram =>
    rw [place] at moved
    cases moved
    exact ⟨Nat.zero_le _, ram, reading, [], rfl, rfl⟩
  | pause turn found =>
    rw [place] at moved held
    obtain ⟨within, ram, gpu, window, length, ends⟩ := held
    dsimp only at moved
    split at moved
    · rename_i more
      split at moved <;> cases moved
      · trivial
      · exact ⟨more, ram, gpu, window, length, ends⟩
    · rename_i last
      split at moved <;> cases moved
      · rename_i wedged
        have full : window.length = watchdog.rounds := by omega
        exact ⟨ram, gpu, _, confirmed_of_window full ends wedged⟩
      · trivial
  | sampleGpu turn found =>
    rw [place] at moved held
    obtain ⟨more, ram, gpu, window, length, ends⟩ := held
    cases moved
    exact ⟨more, ram, gpu, window, reading, found, length, ends, rfl⟩
  | sampleRam turn found =>
    rw [place] at moved held
    obtain ⟨more, ram, gpu, window, util, before, length, ends, rfl⟩ := held
    cases moved
    exact ⟨more, ram, gpu, _, by simp [length], Confirmation.sample_append ends⟩
  | trip =>
    rw [place] at moved held
    cases moved
    exact held
  | tripped | returned =>
    rw [place] at moved
    cases moved

theorem confirmed_step (held : watch.place.Confirmed watchdog)
    (stepped : step watchdog watch label = some after) : after.place.Confirmed watchdog := by
  cases label with
  | clock now =>
    simp only [StallWatchdog.step] at stepped
    split at stepped <;> cases stepped
    exact held
  | beat | stop =>
    cases stepped
    exact held
  | loop reading => exact confirmed_loop held stepped

/-- The runs of the thread, beside any number of beating ones. -/
abbrev Runs (watchdog : StallWatchdog) (start : ℚ) : Watch → Prop :=
  Reach (step watchdog) (fun _ _ => true) { now := start }

theorem sound_started : Sound watchdog { now := start } where
  past _ member := absurd member List.not_mem_nil
  deadline _ member := absurd member List.not_mem_nil
  heard := Nat.zero_le _
  place := trivial
  trip _ none := by cases none

theorem runs_sound (reached : Runs watchdog start watch) : Sound watchdog watch :=
  reached.invariant sound_started fun _ _ _ sound _ stepped => sound.step stepped

/-- A thread that trips has had its confirmation. -/
theorem runs_confirmed (reached : Runs watchdog start watch) :
    watch.place.Confirmed watchdog := by
  induction reached with
  | start => trivial
  | next label _ _ stepped ih => exact confirmed_step ih stepped

/-- **Beats and trips.** In every run, no beat fell into the timeout before the trip if and
only if none of those did that came after the deadline was read. -/
theorem trip_respects_beats_iff {trip : Trip} (reached : Runs watchdog start watch)
    (tripped : watch.trip = some trip) :
    (∀ beat ∈ trip.beats, ¬ trip.time - watchdog.stallTimeoutS < beat) ↔
      ∀ beat ∈ trip.beats.drop trip.heard, ¬ trip.time - watchdog.stallTimeoutS < beat := by
  have before := (runs_sound reached).trip trip tripped
  constructor
  · exact fun all beat member => all beat (List.mem_of_mem_drop member)
  · intro late beat member
    rw [← List.take_append_drop trip.heard trip.beats] at member
    rcases List.mem_append.mp member with early | after
    · have apart := before beat early
      linarith
    · exact late beat after

end Loop

/-- A beat at 0, the deadline passes, and three idle samples are taken; `during` comes in
between. -/
def Sample.wedged (during : List Label) : List Label :=
  [.beat, .clock 120, .loop none, .loop none, .loop (some 1000), .loop (some 0)] ++ during ++
    [.loop none, .loop (some 0), .loop (some 1000), .loop none, .loop (some 0), .loop (some 1000),
      .loop none, .loop none]

def Sample.stalled (during : List Label) : Watch :=
  (follow (step {}) (fun _ _ => true) { now := 0 } (wedged during)).getD { now := 0 }

/-- The beat of a render that is alive comes while the samples are taken. -/
theorem late_beat_tripped : ¬ ∀ (watchdog : StallWatchdog) start watch trip,
    Runs watchdog start watch → watch.trip = some trip →
      ∀ beat ∈ trip.beats, ¬ trip.time - watchdog.stallTimeoutS < beat := by
  intro promised
  have reached : Runs {} 0 (Sample.stalled [.beat]) :=
    Reach.follow_getD (Sample.wedged [.beat]) (by decide +kernel)
  have tripped : (Sample.stalled [.beat]).trip.isSome = true := by decide +kernel
  obtain ⟨trip, found⟩ := Option.isSome_iff_exists.mp tripped
  have read : (Sample.stalled [.beat]).trip.map (fun trip => (trip.time, trip.beats)) =
      some (120, [0, 120]) := by decide +kernel
  rw [found] at read
  obtain ⟨time, beats⟩ := Prod.mk.inj (Option.some.inj read)
  refine promised {} 0 _ trip reached found 120 ?_ ?_
  · rw [beats]
    decide +kernel
  · rw [time]
    decide +kernel

/-- Without it the trip is sound. -/
theorem silent_render_tripped : ∃ watch trip, Runs {} 0 watch ∧ watch.trip = some trip ∧
    trip.beats ≠ [] ∧ ∀ beat ∈ trip.beats, ¬ trip.time - 120 < beat := by
  have reached : Runs {} 0 (Sample.stalled []) :=
    Reach.follow_getD (Sample.wedged []) (by decide +kernel)
  have tripped : (Sample.stalled []).trip.isSome = true := by decide +kernel
  obtain ⟨trip, found⟩ := Option.isSome_iff_exists.mp tripped
  have read : (Sample.stalled []).trip.map (fun trip => (trip.beats, trip.heard)) =
      some ([0], 1) := by decide +kernel
  rw [found] at read
  obtain ⟨beats, heard⟩ := Prod.mk.inj (Option.some.inj read)
  refine ⟨_, trip, reached, found, by rw [beats]; exact List.cons_ne_nil _ _, ?_⟩
  refine (trip_respects_beats_iff reached found).mpr ?_
  rw [beats, heard]
  exact nofun

end StallWatchdog

end QueueWorkflows
