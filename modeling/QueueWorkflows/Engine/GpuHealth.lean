import QueueWorkflows.Engine.StallWatchdog

/-! The health watchdog of a GPU job: a window that is opened at the start, by every beat
and by every healthy checkpoint, and evaluated at the first poll past its end. -/

namespace QueueWorkflows

open Transaction (Reach follow)

theorem ramMoved_eq_false {ramDeltaMb : Int} {anchor now : Reading} :
    ramMoved ramDeltaMb anchor now = false ↔
      ∀ first last, anchor = some first → now = some last → |last - first| ≤ ramDeltaMb := by
  cases anchor with
  | none => simp [ramMoved]
  | some first =>
    cases now with
    | none => simp [ramMoved]
    | some last => simp [ramMoved]

structure GpuHealthWatchdog where
  intervalS : ℚ := 300
  loadGraceS : ℚ := 1200
  idlePct : Int := 5
  ramDeltaMb : Int := 5120

namespace GpuHealthWatchdog

variable (watchdog : GpuHealthWatchdog)

/-- What has happened: a window opened by `start` or by a beat, a poll within the window,
a healthy checkpoint with the new window, a trip. -/
inductive Entry where
  | started (time : ℚ) (anchor : Reading)
  | beat (time : ℚ) (anchor : Reading)
  | polled (time : ℚ) (util : Reading)
  | healthy (util ram : Reading) (time : ℚ) (anchor : Reading)
  | tripped (time : ℚ) (util ram : Reading)
deriving DecidableEq

/-- The fields under the lock and the clock. The code keeps no history. -/
structure Health where
  now : ℚ
  armed : Bool := false
  maxUtil : Int := 0
  ramAnchor : Reading := none
  nextCheckpoint : ℚ := 0
  history : List Entry := []

namespace Health

/-- `_reset_window`, with its reading of the RAM and of the clock. -/
def resetWindow (windowS : ℚ) (time : ℚ) (anchor : Reading) (health : Health) : Health :=
  { health with
    now := time, maxUtil := 0, ramAnchor := anchor, nextCheckpoint := time + windowS }

def log (entry : Entry) (health : Health) : Health :=
  { health with history := health.history ++ [entry] }

/-- The util of a poll goes into the peak. -/
def withUtil (util : Reading) (health : Health) : Health :=
  { health with
    maxUtil := if health.maxUtil < gpuSample util then gpuSample util else health.maxUtil }

/-- `_evaluate_window_locked` says "wedged". -/
def wedged (ram : Reading) (health : Health) : Bool :=
  decide (health.maxUtil ≤ watchdog.idlePct) &&
    !ramMoved watchdog.ramDeltaMb health.ramAnchor ram

/-- The body of `_loop` under the lock: the checkpoint is due at `time`, and a healthy
window is reopened at `later`. -/
def poll (util : Reading) (time : ℚ) (ram : Reading) (later : ℚ) (anchor : Reading)
    (health : Health) : Health :=
  let sampled := { health.withUtil util with now := time }
  if health.armed then
    if sampled.nextCheckpoint ≤ time then
      if sampled.wedged watchdog ram then sampled.log (.tripped time util ram)
      else (sampled.resetWindow watchdog.intervalS later anchor).log (.healthy util ram later anchor)
    else sampled.log (.polled time util)
  else { health with now := time }

end Health

/-- Every action is one section under the lock. Polls are allowed at any time. -/
inductive Label where
  | start (time : ℚ) (anchor : Reading)
  | beat (time : ℚ) (anchor : Reading)
  | poll (util : Reading) (time : ℚ) (ram : Reading) (later : ℚ) (anchor : Reading)

def step (health : Health) : Label → Option Health
  | .start time anchor =>
    if health.now ≤ time then
      some (({ health with armed := true }.resetWindow watchdog.loadGraceS time anchor).log
        (.started time anchor))
    else none
  | .beat time anchor =>
    if health.now ≤ time then
      some (({ health with armed := true }.resetWindow watchdog.intervalS time anchor).log
        (.beat time anchor))
    else none
  | .poll util time ram later anchor =>
    if health.now ≤ time ∧ time ≤ later then some (health.poll watchdog util time ram later anchor)
    else none

/-! ### What a history says -/

namespace Entry

def time : Entry → ℚ
  | started time _ | beat time _ | polled time _ | healthy _ _ time _ | tripped time _ _ => time

/-- The GPU sample of a poll. -/
def util? : Entry → Option Reading
  | polled _ util | healthy util _ _ _ | tripped _ util _ => some util
  | _ => none

/-- The length of the window that the entry opens, and its RAM anchor. -/
def opens? : Entry → Option (ℚ × Reading)
  | started _ anchor => some (watchdog.loadGraceS, anchor)
  | beat _ anchor => some (watchdog.intervalS, anchor)
  | healthy _ _ _ anchor => some (watchdog.intervalS, anchor)
  | _ => none

end Entry

/-- The last opening of a history, with its window and its anchor, and the polls since. -/
structure Opening (history : List Entry) where
  earlier : List Entry
  entry : Entry
  since : List Entry
  windowS : ℚ
  anchor : Reading
  split : history = earlier ++ entry :: since
  opened : entry.opens? watchdog = some (windowS, anchor)
  last : ∀ other ∈ since, other.opens? watchdog = none
  latest : ∀ other ∈ earlier, other.time ≤ entry.time

/-- No GPU sample since the opening was above the limit. -/
def Opening.Quiet {watchdog : GpuHealthWatchdog} {history : List Entry}
    (opening : Opening watchdog history) (limit : Int) : Prop :=
  ∀ other ∈ opening.since, ∀ util, other.util? = some util → gpuSample util ≤ limit

/-- What a trip has to show. -/
def Warranted (before : List Entry) (time : ℚ) (util ram : Reading) : Prop :=
  ∃ opening : Opening watchdog before, opening.entry.time + opening.windowS ≤ time ∧
    opening.Quiet watchdog.idlePct ∧ gpuSample util ≤ watchdog.idlePct ∧
    ∀ first last, opening.anchor = some first → ram = some last →
      |last - first| ≤ watchdog.ramDeltaMb

/-- The window's fields are those of the last opening and of the polls since. -/
structure Sound (health : Health) : Prop where
  past : ∀ entry ∈ health.history, entry.time ≤ health.now
  opening : health.armed = true → ∃ opening : Opening watchdog health.history,
    health.nextCheckpoint = opening.entry.time + opening.windowS ∧
      health.ramAnchor = opening.anchor ∧ opening.Quiet health.maxUtil
  trips : ∀ before after time util ram,
    health.history = before ++ .tripped time util ram :: after →
      Warranted watchdog before time util ram

section Steps

variable {watchdog} {health after : Health} {label : Label} {start : ℚ} {history : List Entry}
  {entry : Entry}

/-- An entry that opens no window joins the polls since the last opening. -/
def Opening.extend (opening : Opening watchdog history) (closed : entry.opens? watchdog = none) :
    Opening watchdog (history ++ [entry]) where
  earlier := opening.earlier
  entry := opening.entry
  since := opening.since ++ [entry]
  windowS := opening.windowS
  anchor := opening.anchor
  split := (congrArg (· ++ [entry]) opening.split).trans (by simp)
  opened := opening.opened
  last other member := by
    rcases List.mem_append.mp member with old | new
    · exact opening.last other old
    · exact List.mem_singleton.mp new ▸ closed
  latest := opening.latest

/-- An entry that opens a window. -/
def Opening.fresh {windowS : ℚ} {anchor : Reading} (past : ∀ other ∈ history, other.time ≤ entry.time)
    (opened : entry.opens? watchdog = some (windowS, anchor)) :
    Opening watchdog (history ++ [entry]) where
  earlier := history
  entry := entry
  since := []
  windowS := windowS
  anchor := anchor
  split := rfl
  opened := opened
  last _ member := absurd member List.not_mem_nil
  latest := past

theorem Opening.Quiet.extend {opening : Opening watchdog history} {limit greater : Int}
    (quiet : opening.Quiet limit) (closed : entry.opens? watchdog = none)
    (wider : limit ≤ greater) (util : ∀ util, entry.util? = some util → gpuSample util ≤ greater) :
    (opening.extend closed).Quiet greater := by
  intro other member reading sampled
  rcases List.mem_append.mp member with old | new
  · exact (quiet other old reading sampled).trans wider
  · rw [List.mem_singleton.mp new] at sampled
    exact util reading sampled

theorem past_log (past : ∀ other ∈ history, other.time ≤ health.now) {now : ℚ}
    (later : health.now ≤ now) (own : entry.time ≤ now) :
    ∀ other ∈ history ++ [entry], other.time ≤ now := by
  intro other member
  rcases List.mem_append.mp member with old | new
  · exact (past other old).trans later
  · exact List.mem_singleton.mp new ▸ own

/-- A trip in a longer history is in the history already, or it is the new entry. -/
theorem warranted_log (trips : ∀ before after time util ram,
      history = before ++ .tripped time util ram :: after → Warranted watchdog before time util ram)
    (own : ∀ time util ram, entry = .tripped time util ram → Warranted watchdog history time util ram) :
    ∀ before after time util ram, history ++ [entry] = before ++ .tripped time util ram :: after →
      Warranted watchdog before time util ram := by
  intro before after time util ram same
  rcases List.eq_nil_or_concat after with rfl | ⟨front, last, rfl⟩
  · obtain ⟨rfl, alike⟩ := List.append_inj' same rfl
    exact own time util ram (List.head_eq_of_cons_eq alike)
  · rw [List.concat_eq_append, ← List.cons_append, ← List.append_assoc] at same
    exact trips before front time util ram (List.append_inj' same rfl).1

/-- A window is opened, whatever the fields of the old one are. -/
theorem Sound.reopened (sound : Sound watchdog health) {old : Health}
    (same : old.history = health.history) {time windowS : ℚ} {anchor : Reading}
    (later : health.now ≤ time) (opened : entry.opens? watchdog = some (windowS, anchor))
    (own : entry.time = time) :
    Sound watchdog ((old.resetWindow windowS time anchor).log entry) := by
  have past (other : Entry) (member : other ∈ old.history) : other.time ≤ entry.time :=
    (sound.past other (same ▸ member)).trans (later.trans own.ge)
  constructor
  · exact past_log (fun other member => sound.past other (same ▸ member)) later own.le
  · intro _
    refine ⟨.fresh past opened, ?_, rfl, fun _ member => absurd member List.not_mem_nil⟩
    exact congrArg (· + windowS) own.symm
  · refine warranted_log (same.symm ▸ sound.trips) fun time util ram trip => ?_
    rw [trip] at opened
    cases opened

theorem Health.maxUtil_le (util : Reading) : health.maxUtil ≤ (health.withUtil util).maxUtil := by
  simp only [withUtil]
  split <;> omega

theorem Health.gpuSample_le (util : Reading) :
    gpuSample util ≤ (health.withUtil util).maxUtil := by
  simp only [withUtil]
  split <;> omega

theorem Sound.sampled (sound : Sound watchdog health) {time : ℚ} {util : Reading}
    (later : health.now ≤ time) (closed : entry.opens? watchdog = none) (own : entry.time = time)
    (reads : entry.util? = some util)
    (trips : ∀ time util ram, entry = .tripped time util ram →
      Warranted watchdog health.history time util ram) :
    Sound watchdog ({ health.withUtil util with now := time }.log entry) where
  past := past_log sound.past later own.le
  opening armed := by
    obtain ⟨opening, checkpoint, anchor, quiet⟩ := sound.opening armed
    refine ⟨opening.extend closed, checkpoint, anchor, ?_⟩
    refine quiet.extend closed (Health.maxUtil_le util) fun other sampled => ?_
    cases reads.symm.trans sampled
    exact Health.gpuSample_le util
  trips := warranted_log sound.trips trips

/-- A trip of an armed watchdog is warranted. -/
theorem Sound.warranted (sound : Sound watchdog health) (armed : health.armed = true)
    {time : ℚ} {util ram : Reading} (due : health.nextCheckpoint ≤ time)
    (wedged : (health.withUtil util).wedged watchdog ram = true) :
    Warranted watchdog health.history time util ram := by
  obtain ⟨opening, checkpoint, anchor, quiet⟩ := sound.opening armed
  simp only [Health.wedged, Bool.and_eq_true, decide_eq_true_eq, Bool.not_eq_true'] at wedged
  obtain ⟨idle, static⟩ := wedged
  refine ⟨opening, checkpoint ▸ due, fun other member reading sampled => ?_, ?_, ?_⟩
  · exact (quiet other member reading sampled).trans ((Health.maxUtil_le util).trans idle)
  · exact (Health.gpuSample_le util).trans idle
  · exact ramMoved_eq_false.mp (anchor ▸ static)

theorem Sound.poll (sound : Sound watchdog health) {util ram anchor : Reading} {time later : ℚ}
    (due : health.now ≤ time) (after : time ≤ later) :
    Sound watchdog (health.poll watchdog util time ram later anchor) := by
  unfold Health.poll
  dsimp only
  split
  · rename_i armed
    split
    · rename_i reached
      split
      · rename_i wedged
        refine sound.sampled due rfl rfl rfl ?_
        rintro _ _ _ ⟨⟩
        exact sound.warranted armed reached wedged
      · exact sound.reopened rfl (due.trans after) rfl rfl
    · exact sound.sampled due rfl rfl rfl nofun
  · exact ⟨fun entry member => (sound.past entry member).trans due, sound.opening, sound.trips⟩

theorem Sound.step (sound : Sound watchdog health)
    (stepped : step watchdog health label = some after) : Sound watchdog after := by
  cases label with
  | start time anchor | beat time anchor =>
    simp only [GpuHealthWatchdog.step] at stepped
    split at stepped <;> cases stepped
    rename_i later
    refine sound.reopened ?_ later ?_ ?_
    all_goals rfl
  | poll util time ram later anchor =>
    simp only [GpuHealthWatchdog.step] at stepped
    split at stepped <;> cases stepped
    rename_i clock
    exact sound.poll clock.1 clock.2

/-- The runs of the watchdog, beside any number of beating threads. -/
abbrev Runs (watchdog : GpuHealthWatchdog) (start : ℚ) : Health → Prop :=
  Reach (step watchdog) (fun _ _ => true) { now := start }

theorem sound_unarmed : Sound watchdog { now := start } where
  past _ member := absurd member List.not_mem_nil
  opening armed := by cases armed
  trips before after time util ram same := by
    have nonempty : before ++ .tripped time util ram :: after ≠ [] := by simp
    exact absurd same.symm nonempty

/-- **Health-driven trips.** In every run, every trip comes a full window after the last of
the start, the beats and the healthy checkpoints, with no busy GPU sample and no movement
of the RAM since. -/
theorem trips_warranted (reached : Runs watchdog start health) :
    ∀ before after time util ram,
      health.history = before ++ .tripped time util ram :: after →
        Warranted watchdog before time util ram := by
  have sound : Sound watchdog health :=
    reached.invariant sound_unarmed fun _ _ _ sound _ stepped => sound.step stepped
  exact sound.trips

end Steps

/-- A load that hangs, with the GPU idle and the memory static. -/
def Sample.hungLoad : List Label :=
  [.start 0 (some 1000), .poll (some 0) 600 none 600 none,
    .poll (some 0) 1200 (some 1000) 1200 none]

def Sample.hung : Health :=
  (follow (step {}) (fun _ _ => true) { now := 0 } hungLoad).getD { now := 0 }

/-- It is stopped when its grace is over. -/
theorem hung_load_tripped : ∃ health before, Runs {} 0 health ∧
    health.history = before ++ [.tripped 1200 (some 0) (some 1000)] ∧
      Warranted {} before 1200 (some 0) (some 1000) := by
  have reached : Runs {} 0 Sample.hung := Reach.follow_getD Sample.hungLoad (by decide +kernel)
  have history : Sample.hung.history = [.started 0 (some 1000), .polled 600 (some 0)] ++
      [.tripped 1200 (some 0) (some 1000)] := by decide +kernel
  exact ⟨_, _, reached, history, trips_warranted reached _ [] _ _ _ history⟩

end GpuHealthWatchdog

end QueueWorkflows
