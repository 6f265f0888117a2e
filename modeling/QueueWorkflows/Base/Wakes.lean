import Mathlib.Algebra.Order.Field.Rat
import Mathlib.Logic.Relation
import Mathlib.Tactic.Linarith
import Mathlib.Tactic.Ring
import QueueWorkflows.Base.Pool

/-! A thread that listens to a channel. It looks at a store that others write to, sleeps when it
has found nothing there for itself, and looks again when a notice comes in. A write may owe a
notice to the channel; but notices only reach who is connected, and connections break. -/

namespace Wakes

open Transaction (Reach)

universe u v

/-- What comes of a look: something that the thread takes up, nothing, or no look at all. -/
inductive Look (σ : Type u) where
  | found (after : σ)
  | nothing
  | passed

/-- How a thread listens. -/
structure Loop (σ : Type u) (α : Type v) where
  /-- The write owes no notice. -/
  quiet : σ → σ → Bool
  look : α → σ → Look σ
  /-- Once connected, it looks before it sleeps. -/
  looksFirst : Bool
  /-- It is over when it has found something. -/
  returns : Bool
  base : ℚ
  cap : ℚ

/-- Where the thread stands, with the notices that have come in over its connection. -/
inductive Place (σ : Type u) (α : Type v) where
  | connecting
  | looking (inbox : ℕ)
  | busy (inbox : ℕ)
  /-- It sleeps on the channel; `seen` is the look that has found nothing, and its store. -/
  | blocked (inbox : ℕ) (seen : Option (α × σ))
  | retrying
  | returned

namespace Place

variable {σ : Type u} {α : Type v}

/-- Notices come in. -/
def hear (notices : ℕ) : Place σ α → Place σ α
  | .looking inbox => .looking (inbox + notices)
  | .busy inbox => .busy (inbox + notices)
  | .blocked inbox seen => .blocked (inbox + notices) seen
  | .connecting => .connecting
  | .retrying => .retrying
  | .returned => .returned

end Place

/-- `slept` has the sleeps since the thread was last connected. -/
structure World (σ : Type u) (α : Type v) where
  store : σ
  place : Place σ α := .connecting
  backoff : ℚ
  slept : List ℚ := []

inductive Label (σ : Type u) (α : Type v) where
  /-- Somebody writes, and posts so many notices. -/
  | commit (after : σ) (notices : ℕ)
  | connect
  /-- The connection breaks, or cannot be made. -/
  | fail
  | retry
  | look (arg : α)
  /-- The thread is done with what it had found. -/
  | resume
  /-- What it had found has raised. -/
  | trouble
  /-- It takes some notices, or none when it has waited for long enough. -/
  | wake (taken : ℕ)
  | stop

section Step

variable {σ : Type u} {α : Type v} (loop : Loop σ α)

def start (store : σ) : World σ α := { store := store, backoff := loop.base }

/-- The thread after a look. -/
def Loop.looked (inbox : ℕ) (arg : α) (world : World σ α) : World σ α :=
  match loop.look arg world.store with
  | .found after =>
    { world with store := after, place := if loop.returns then .returned else .busy inbox }
  | .nothing => { world with place := .blocked inbox (some (arg, world.store)) }
  | .passed => { world with place := .blocked inbox none }

def step (world : World σ α) : Label σ α → Option (World σ α)
  | .commit after notices =>
    if loop.quiet world.store after || decide (0 < notices) then
      some { world with store := after, place := world.place.hear notices }
    else none
  | .connect =>
    match world.place with
    | .connecting => some { world with
      place := if loop.looksFirst then .looking 0 else .blocked 0 none
      backoff := loop.base
      slept := [] }
    | _ => none
  | .fail =>
    match world.place with
    | .connecting | .looking _ | .blocked _ _ => some { world with place := .retrying }
    | _ => none
  | .retry =>
    match world.place with
    | .retrying => some { world with
      place := .connecting
      backoff := min (world.backoff * 2) loop.cap
      slept := world.slept ++ [world.backoff] }
    | _ => none
  | .look arg =>
    match world.place with
    | .looking inbox => some (loop.looked inbox arg world)
    | _ => none
  | .resume =>
    match world.place with
    | .busy inbox => some { world with place := .looking inbox }
    | _ => none
  | .trouble =>
    match world.place with
    | .busy inbox => some { world with place := .blocked inbox none }
    | _ => none
  | .wake taken =>
    match world.place with
    | .blocked inbox _ => some { world with place := .looking (inbox - taken) }
    | _ => none
  | .stop => some { world with place := .returned }

def anything (_ : World σ α) (_ : Label σ α) : Bool := true

/-! ### Sleeping with nothing pending -/

/-- Only quiet writes have been made since. -/
abbrev Loop.Calm : σ → σ → Prop :=
  Relation.ReflTransGen fun before after => loop.quiet before after = true

/-- A thread that sleeps with no notice pending has found nothing, and nothing that is owed a
notice has been written since. -/
def Rested (world : World σ α) : Prop :=
  ∀ arg seen, world.place = .blocked 0 (some (arg, seen)) →
    loop.look arg seen = .nothing ∧ loop.Calm seen world.store

variable {loop} {world after : World σ α} {label : Label σ α}

/-- A thread that has not fallen asleep just now is at rest if it is at rest at all. -/
theorem rested_of_place (apart : ∀ seen, world.place ≠ .blocked 0 (some seen)) :
    Rested loop world := fun _ _ asleep => absurd asleep (apart _)

theorem rested_commit {store : σ} {notices : ℕ} (rested : Rested loop world)
    (owed : (loop.quiet world.store store || decide (0 < notices)) = true) :
    Rested loop { world with store := store, place := world.place.hear notices } := by
  intro arg seen asleep
  cases stands : world.place with
  | blocked inbox other =>
    rw [stands] at asleep
    obtain ⟨empty, rfl⟩ := Place.blocked.inj asleep
    obtain ⟨rfl, rfl⟩ : inbox = 0 ∧ notices = 0 := by omega
    obtain ⟨looked, calm⟩ := rested arg seen stands
    have quiet : loop.quiet world.store store = true := by simpa using owed
    exact ⟨looked, calm.tail quiet⟩
  | connecting | looking | busy | retrying | returned =>
    rw [stands] at asleep
    cases asleep

theorem rested_looked {inbox : ℕ} {arg : α} : Rested loop (loop.looked inbox arg world) := by
  intro other seen asleep
  unfold Loop.looked at asleep ⊢
  cases result : loop.look arg world.store with
  | found after =>
    rw [result] at asleep
    cases ends : loop.returns <;> simp [ends] at asleep
  | nothing =>
    rw [result] at asleep
    obtain ⟨-, same⟩ := Place.blocked.inj asleep
    cases same
    exact ⟨result, .refl⟩
  | passed =>
    rw [result] at asleep
    cases asleep

theorem Rested.step (rested : Rested loop world)
    (stepped : Wakes.step loop world label = some after) : Rested loop after := by
  cases label with
  | commit store notices =>
    simp only [Wakes.step] at stepped
    split at stepped
    · rename_i owed
      cases stepped
      exact rested_commit rested owed
    · cases stepped
  | look arg =>
    simp only [Wakes.step] at stepped
    split at stepped
    · cases stepped
      exact rested_looked
    · cases stepped
  | connect =>
    simp only [Wakes.step] at stepped
    split at stepped
    · cases stepped
      apply rested_of_place
      intro seen asleep
      cases first : loop.looksFirst <;> simp [first] at asleep
    · cases stepped
  | fail | retry | resume | trouble | wake =>
    simp only [Wakes.step] at stepped
    split at stepped <;> cases stepped
    all_goals exact rested_of_place (by rintro seen ⟨⟩)
  | stop =>
    cases stepped
    exact rested_of_place (by rintro seen ⟨⟩)

theorem rested {store : σ} (reached : Reach (step loop) anything (start loop store) world) :
    Rested loop world := by
  refine reached.invariant (rested_of_place ?_) fun _ _ _ rested _ stepped => rested.step stepped
  rintro seen ⟨⟩

/-- What quiet writes keep is still so when a sleeper has no notice pending. -/
theorem kept {holds : σ → Prop} {store seen : σ} {arg : α}
    (keeps : ∀ before after, loop.quiet before after = true → holds before → holds after)
    (reached : Reach (step loop) anything (start loop store) world)
    (asleep : world.place = .blocked 0 (some (arg, seen))) (held : holds seen) :
    holds world.store := by
  have calm := (rested reached arg seen asleep).2
  generalize world.store = last at calm
  induction calm with
  | refl => exact held
  | tail _ quiet ih => exact keeps _ _ quiet ih

/-! ### Sleeps between two connections -/

variable (loop) in
/-- The sleeps double up to the cap, from the base. -/
structure Paced (world : World σ α) : Prop where
  slept : world.slept = (List.range world.slept.length).map fun n => min (loop.base * 2 ^ n) loop.cap
  backoff : world.backoff = min (loop.base * 2 ^ world.slept.length) loop.cap

theorem paced_nil (bounded : loop.base ≤ loop.cap) (fresh : world.slept = [])
    (reset : world.backoff = loop.base) : Paced loop world := by
  constructor
  · rw [fresh]
    rfl
  · rw [reset, fresh, List.length_nil, pow_zero, mul_one, min_eq_left bounded]

theorem paced_congr (paced : Paced loop world) (slept : after.slept = world.slept)
    (backoff : after.backoff = world.backoff) : Paced loop after := by
  constructor
  · rw [slept]
    exact paced.slept
  · rw [backoff, slept]
    exact paced.backoff

/-- Doubling after the cap has been applied and before come to the same. -/
theorem double_min {cap value : ℚ} (nonneg : 0 ≤ cap) :
    min (min value cap * 2) cap = min (value * 2) cap := by
  rcases le_total value cap with below | above
  · rw [min_eq_left below]
  · rw [min_eq_right above, min_eq_right (by linarith), min_eq_right (by linarith)]

theorem paced_retry (nonneg : 0 ≤ loop.cap) (paced : Paced loop world) :
    Paced loop { world with
      place := .connecting
      backoff := min (world.backoff * 2) loop.cap
      slept := world.slept ++ [world.backoff] } := by
  constructor
  · simp only [List.length_append, List.length_singleton, List.range_succ, List.map_append,
      List.map_singleton]
    rw [← paced.slept, ← paced.backoff]
  · simp only [List.length_append, List.length_singleton]
    rw [paced.backoff, double_min nonneg, pow_succ, mul_assoc]

theorem Paced.step (nonneg : 0 ≤ loop.cap) (bounded : loop.base ≤ loop.cap)
    (paced : Paced loop world) (stepped : Wakes.step loop world label = some after) :
    Paced loop after := by
  cases label with
  | commit store notices =>
    simp only [Wakes.step] at stepped
    split at stepped <;> cases stepped
    exact paced_congr paced rfl rfl
  | connect =>
    simp only [Wakes.step] at stepped
    split at stepped <;> cases stepped
    exact paced_nil bounded rfl rfl
  | retry =>
    simp only [Wakes.step] at stepped
    split at stepped <;> cases stepped
    exact paced_retry nonneg paced
  | look arg =>
    simp only [Wakes.step] at stepped
    split at stepped <;> cases stepped
    unfold Loop.looked
    cases loop.look arg world.store <;> exact paced_congr paced rfl rfl
  | fail | resume | trouble | wake =>
    simp only [Wakes.step] at stepped
    split at stepped <;> cases stepped
    all_goals exact paced_congr paced rfl rfl
  | stop =>
    cases stepped
    exact paced_congr paced rfl rfl

/-- The sleeps since the last connection double from the base and never pass the cap. -/
theorem paced {store : σ} (nonneg : 0 ≤ loop.cap) (bounded : loop.base ≤ loop.cap)
    (reached : Reach (step loop) anything (start loop store) world) : Paced loop world :=
  reached.invariant (paced_nil bounded rfl rfl) fun _ _ _ paced _ stepped =>
    paced.step nonneg bounded stepped

end Step

end Wakes
