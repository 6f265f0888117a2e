import QueueWorkflows.Base.Pool

/-! The two lanes of a GPU worker as threads. The inline thread and the pool's feeder
reserve slots of one budget under a lock; pool threads give theirs back. Each step is one
section under the lock, or one assignment outside of it. -/

namespace QueueWorkflows.GpuLanes

open Transaction (Reach follow)

/-- Where the inline thread stands in `run_once`. -/
inductive Inline where
  | idle
  /-- It has read PAR and not taken the lock yet. -/
  | entering (par : Int)
  | claiming
  | running (job : Nat)
deriving DecidableEq

/-- Where the feeder stands in its loop, with the PAR of the cycle. -/
inductive Feeder where
  | idle
  | cycling (par : Int)
  /-- A slot is reserved and the claim under way. -/
  | reserved (par : Int)
  | claimed (par : Int) (job : Nat)
deriving DecidableEq

/-- `_inline_running` and `_pool_inflight`, where the two threads stand, and the jobs the
executor has taken over and not given back the slot of. -/
structure Lanes where
  inlineRunning : Bool := false
  poolInflight : Int := 0
  inline : Inline := .idle
  feeder : Feeder := .idle
  submitted : List Nat := []

/-- `_pool_parallelism`: 1 when the read fails. -/
def poolParallelism (read : Option Int) : Int :=
  match read with
  | none => 1
  | some par => max 1 (if par = 0 then 1 else par)

/-- `_pool_budget`. -/
def Lanes.poolBudget (lanes : Lanes) (par : Int) : Int :=
  max 0 (par - if lanes.inlineRunning then 1 else 0)

inductive Label where
  | enterInline (read : Option Int)
  | admitInline
  /-- `_claim` returns a row, or nothing, or raises. -/
  | claimInline (job : Option Nat)
  | finishInline
  | beginCycle (read : Option Int)
  /-- The feeder defers, or is stopped. -/
  | leaveCycle
  | reserve
  /-- `_claim_pool` returns a row, or nothing, or raises. -/
  | claimPool (job : Option Nat)
  /-- `submit` takes the job over, or raises. -/
  | submit (taken : Bool)
  /-- A pool thread is done with a job, however that ended. -/
  | release (job : Nat)

/-- Both ways out of `run_once` past the admission go through its `finally`. -/
def Lanes.leaveInline (lanes : Lanes) : Lanes :=
  { lanes with inlineRunning := false, inline := .idle }

/-- The feeder gives back the slot it reserved. -/
def Lanes.giveBack (lanes : Lanes) : Lanes :=
  { lanes with poolInflight := lanes.poolInflight - 1, feeder := .idle }

def step (lanes : Lanes) : Label → Option Lanes
  | .enterInline read =>
    match lanes.inline with
    | .idle => some { lanes with inline := .entering (poolParallelism read) }
    | _ => none
  | .admitInline =>
    match lanes.inline with
    | .entering par =>
      if par ≤ lanes.poolInflight then some { lanes with inline := .idle }
      else some { lanes with inlineRunning := true, inline := .claiming }
    | _ => none
  | .claimInline job =>
    match lanes.inline, job with
    | .claiming, some job => some { lanes with inline := .running job }
    | .claiming, none => some lanes.leaveInline
    | _, _ => none
  | .finishInline =>
    match lanes.inline with
    | .running _ => some lanes.leaveInline
    | _ => none
  | .beginCycle read =>
    match lanes.feeder with
    | .idle => some { lanes with feeder := .cycling (poolParallelism read) }
    | _ => none
  | .leaveCycle =>
    match lanes.feeder with
    | .cycling _ => some { lanes with feeder := .idle }
    | _ => none
  | .reserve =>
    match lanes.feeder with
    | .cycling par =>
      if lanes.poolBudget par ≤ lanes.poolInflight then some { lanes with feeder := .idle }
      else some { lanes with poolInflight := lanes.poolInflight + 1, feeder := .reserved par }
    | _ => none
  | .claimPool job =>
    match lanes.feeder, job with
    | .reserved par, some job => some { lanes with feeder := .claimed par job }
    | .reserved _, none => some lanes.giveBack
    | _, _ => none
  | .submit taken =>
    match lanes.feeder with
    | .claimed par job =>
      if taken then some { lanes with feeder := .cycling par, submitted := job :: lanes.submitted }
      else some lanes.giveBack
    | _ => none
  | .release job =>
    if job ∈ lanes.submitted then some { lanes with
      poolInflight := lanes.poolInflight - 1, submitted := lanes.submitted.erase job }
    else none

namespace Lanes

/-- The node jobs the machine counts. -/
def total (lanes : Lanes) : Int :=
  (if lanes.inlineRunning then 1 else 0) + lanes.poolInflight

/-- The feeder holds a slot it has not passed on. -/
def holds (lanes : Lanes) : Bool :=
  lanes.feeder matches .reserved _ | .claimed _ _

/-- The pool slots that are reserved and not released. -/
def slots (lanes : Lanes) : Int :=
  (if lanes.holds then 1 else 0) + lanes.submitted.length

end Lanes

/-- The step admits a job to a lane, under this PAR. -/
inductive Admits (lanes : Lanes) : Label → Int → Prop
  | inline (par : Int) (entering : lanes.inline = .entering par)
      (free : lanes.poolInflight < par) : Admits lanes .admitInline par
  | pool (par : Int) (cycling : lanes.feeder = .cycling par)
      (free : lanes.poolInflight < lanes.poolBudget par) : Admits lanes .reserve par

/-- Every read of PAR gives this value. -/
def constant (par : Int) (_ : Lanes) : Label → Bool
  | .enterInline read | .beginCycle read => poolParallelism read == par
  | _ => true

/-- The steps of the two threads and of the pool, with what each was taken on. -/
inductive Move (lanes : Lanes) : Label → Lanes → Prop
  | entered (read : Option Int) (idle : lanes.inline = .idle) :
      Move lanes (.enterInline read) { lanes with inline := .entering (poolParallelism read) }
  | turnedAway (par : Int) (entering : lanes.inline = .entering par)
      (full : par ≤ lanes.poolInflight) : Move lanes .admitInline { lanes with inline := .idle }
  | admitted (par : Int) (entering : lanes.inline = .entering par)
      (free : lanes.poolInflight < par) :
      Move lanes .admitInline { lanes with inlineRunning := true, inline := .claiming }
  | started (job : Nat) (claiming : lanes.inline = .claiming) :
      Move lanes (.claimInline (some job)) { lanes with inline := .running job }
  | unclaimed (claiming : lanes.inline = .claiming) :
      Move lanes (.claimInline none) lanes.leaveInline
  | finished (job : Nat) (running : lanes.inline = .running job) :
      Move lanes .finishInline lanes.leaveInline
  | began (read : Option Int) (idle : lanes.feeder = .idle) :
      Move lanes (.beginCycle read) { lanes with feeder := .cycling (poolParallelism read) }
  | left (par : Int) (cycling : lanes.feeder = .cycling par) :
      Move lanes .leaveCycle { lanes with feeder := .idle }
  | full (par : Int) (cycling : lanes.feeder = .cycling par)
      (full : lanes.poolBudget par ≤ lanes.poolInflight) :
      Move lanes .reserve { lanes with feeder := .idle }
  | reserved (par : Int) (cycling : lanes.feeder = .cycling par)
      (free : lanes.poolInflight < lanes.poolBudget par) :
      Move lanes .reserve
        { lanes with poolInflight := lanes.poolInflight + 1, feeder := .reserved par }
  | claimed (par : Int) (job : Nat) (reserved : lanes.feeder = .reserved par) :
      Move lanes (.claimPool (some job)) { lanes with feeder := .claimed par job }
  | empty (par : Int) (reserved : lanes.feeder = .reserved par) :
      Move lanes (.claimPool none) lanes.giveBack
  | submitted (par : Int) (job : Nat) (claimed : lanes.feeder = .claimed par job) :
      Move lanes (.submit true)
        { lanes with feeder := .cycling par, submitted := job :: lanes.submitted }
  | refused (par : Int) (job : Nat) (claimed : lanes.feeder = .claimed par job) :
      Move lanes (.submit false) lanes.giveBack
  | released (job : Nat) (member : job ∈ lanes.submitted) :
      Move lanes (.release job) { lanes with
        poolInflight := lanes.poolInflight - 1, submitted := lanes.submitted.erase job }

section Steps

variable {lanes after : Lanes} {label : Label}

theorem step_cases (stepped : step lanes label = some after) : Move lanes label after := by
  cases label with
  | enterInline read =>
    simp only [step] at stepped
    split at stepped
    · cases stepped
      exact .entered read ‹_›
    · cases stepped
  | admitInline =>
    simp only [step] at stepped
    split at stepped
    · split at stepped
      · cases stepped
        exact .turnedAway _ ‹_› ‹_›
      · cases stepped
        exact .admitted _ ‹_› (Int.not_le.mp ‹_›)
    · cases stepped
  | claimInline job =>
    simp only [step] at stepped
    split at stepped
    · cases stepped
      exact .started _ ‹_›
    · cases stepped
      exact .unclaimed ‹_›
    · cases stepped
  | finishInline =>
    simp only [step] at stepped
    split at stepped
    · cases stepped
      exact .finished _ ‹_›
    · cases stepped
  | beginCycle read =>
    simp only [step] at stepped
    split at stepped
    · cases stepped
      exact .began read ‹_›
    · cases stepped
  | leaveCycle =>
    simp only [step] at stepped
    split at stepped
    · cases stepped
      exact .left _ ‹_›
    · cases stepped
  | reserve =>
    simp only [step] at stepped
    split at stepped
    · split at stepped
      · cases stepped
        exact .full _ ‹_› ‹_›
      · cases stepped
        exact .reserved _ ‹_› (Int.not_le.mp ‹_›)
    · cases stepped
  | claimPool job =>
    simp only [step] at stepped
    split at stepped
    · cases stepped
      exact .claimed _ _ ‹_›
    · cases stepped
      exact .empty _ ‹_›
    · cases stepped
  | submit taken =>
    simp only [step] at stepped
    split at stepped
    · cases taken with
      | true =>
        cases stepped
        exact .submitted _ _ ‹_›
      | false =>
        cases stepped
        exact .refused _ _ ‹_›
    · cases stepped
  | release job =>
    simp only [step] at stepped
    split at stepped
    · cases stepped
      exact .released job ‹_›
    · cases stepped

/-! ### Slots -/

/-- The flag and the counter say where the threads stand. -/
structure Accounted (lanes : Lanes) : Prop where
  flag : lanes.inlineRunning = (lanes.inline matches .claiming | .running _)
  counter : lanes.poolInflight = lanes.slots

theorem Accounted.step (accounted : Accounted lanes) (stepped : step lanes label = some after) :
    Accounted after := by
  obtain ⟨flag, counter⟩ := accounted
  simp only [Lanes.slots, Lanes.holds] at counter
  cases step_cases stepped with
  | entered read idle => exact ⟨by simpa [idle] using flag, counter⟩
  | turnedAway par entering full => exact ⟨by simpa [entering] using flag, counter⟩
  | admitted par entering free => exact ⟨rfl, counter⟩
  | started job claiming => exact ⟨by simpa [claiming] using flag, counter⟩
  | unclaimed claiming => exact ⟨rfl, counter⟩
  | finished job running => exact ⟨rfl, counter⟩
  | began read idle => exact ⟨flag, by simpa [Lanes.slots, Lanes.holds, idle] using counter⟩
  | left par cycling => exact ⟨flag, by simpa [Lanes.slots, Lanes.holds, cycling] using counter⟩
  | full par cycling full =>
    exact ⟨flag, by simpa [Lanes.slots, Lanes.holds, cycling] using counter⟩
  | reserved par cycling free =>
    refine ⟨flag, ?_⟩
    simp only [cycling, Lanes.slots, Lanes.holds] at counter ⊢
    simp only [Bool.false_eq_true, if_false, if_true] at counter ⊢
    omega
  | claimed par job reserved =>
    exact ⟨flag, by simpa [Lanes.slots, Lanes.holds, reserved] using counter⟩
  | empty par reserved =>
    refine ⟨flag, ?_⟩
    simp only [reserved, Lanes.slots, Lanes.holds, Lanes.giveBack] at counter ⊢
    simp only [Bool.false_eq_true, if_false, if_true] at counter ⊢
    omega
  | submitted par job claimed =>
    refine ⟨flag, ?_⟩
    simp only [claimed, Lanes.slots, Lanes.holds, List.length_cons] at counter ⊢
    simp only [Bool.false_eq_true, if_false, if_true] at counter ⊢
    omega
  | refused par job claimed =>
    refine ⟨flag, ?_⟩
    simp only [claimed, Lanes.slots, Lanes.holds, Lanes.giveBack] at counter ⊢
    simp only [Bool.false_eq_true, if_false, if_true] at counter ⊢
    omega
  | released job member =>
    refine ⟨flag, ?_⟩
    have nonempty := List.length_pos_of_mem member
    have same : Lanes.holds { lanes with
        poolInflight := lanes.poolInflight - 1, submitted := lanes.submitted.erase job } =
        lanes.holds := rfl
    simp only [Lanes.slots, same, List.length_erase_of_mem member]
    change lanes.poolInflight = (if lanes.holds then 1 else 0) + _ at counter
    generalize (if lanes.holds = true then (1 : Int) else 0) = held at counter ⊢
    omega

theorem Accounted.nonneg (accounted : Accounted lanes) : 0 ≤ lanes.poolInflight := by
  rw [accounted.counter]
  unfold Lanes.slots
  split <;> omega

/-- An admission leaves the machine at most the PAR it read. -/
theorem admits_total {par : Int} (accounted : Accounted lanes) (admits : Admits lanes label par)
    (stepped : step lanes label = some after) : after.total ≤ par := by
  cases admits with
  | inline _ entering free =>
    cases step_cases stepped with
    | turnedAway other entering' full =>
      rw [entering] at entering'
      cases entering'
      omega
    | admitted other entering' _ =>
      simp only [Lanes.total, if_true]
      omega
  | pool _ cycling free =>
    cases step_cases stepped with
    | full other cycling' full =>
      rw [cycling] at cycling'
      cases cycling'
      omega
    | reserved other cycling' _ =>
      have count := accounted.nonneg
      simp only [Lanes.total, Lanes.poolBudget] at free ⊢
      omega

/-! ### A constant PAR -/

def Inline.par? : Inline → Option Int
  | .entering par => some par
  | _ => none

def Feeder.par? : Feeder → Option Int
  | .idle => none
  | .cycling par | .reserved par | .claimed par _ => some par

/-- The threads work under this PAR, and the machine keeps within it. -/
structure Within (par : Int) (lanes : Lanes) : Prop where
  inline : ∀ other ∈ lanes.inline.par?, other = par
  feeder : ∀ other ∈ lanes.feeder.par?, other = par
  total : lanes.total ≤ par

theorem Within.step {par : Int} (within : Within par lanes) (accounted : Accounted lanes)
    (allowed : constant par lanes label = true) (stepped : step lanes label = some after) :
    Within par after := by
  obtain ⟨inline, feeder, total⟩ := within
  cases step_cases stepped with
  | entered read idle =>
    refine ⟨fun other mine => ?_, feeder, total⟩
    rw [← Option.some.inj mine]
    simpa [constant] using allowed
  | turnedAway other entering full => exact ⟨nofun, feeder, total⟩
  | admitted other entering free =>
    refine ⟨nofun, feeder, ?_⟩
    have same : other = par := inline other (by rw [entering]; rfl)
    exact same ▸ admits_total accounted (.inline other entering free) stepped
  | started job claiming => exact ⟨nofun, feeder, total⟩
  | unclaimed claiming =>
    refine ⟨nofun, feeder, ?_⟩
    simp only [Lanes.total, Lanes.leaveInline] at total ⊢
    split at total <;> simp <;> omega
  | finished job running =>
    refine ⟨nofun, feeder, ?_⟩
    simp only [Lanes.total, Lanes.leaveInline] at total ⊢
    split at total <;> simp <;> omega
  | began read idle =>
    refine ⟨inline, fun other mine => ?_, total⟩
    rw [← Option.some.inj mine]
    simpa [constant] using allowed
  | left other cycling => exact ⟨inline, nofun, total⟩
  | full other cycling full => exact ⟨inline, nofun, total⟩
  | reserved other cycling free =>
    have same : other = par := feeder other (by rw [cycling]; rfl)
    refine ⟨inline, fun _ mine => (Option.some.inj mine) ▸ same, ?_⟩
    exact same ▸ admits_total accounted (.pool other cycling free) stepped
  | claimed other job reserved =>
    have same : other = par := feeder other (by rw [reserved]; rfl)
    exact ⟨inline, fun _ mine => (Option.some.inj mine) ▸ same, total⟩
  | empty other reserved =>
    refine ⟨inline, nofun, ?_⟩
    simp only [Lanes.total, Lanes.giveBack] at total ⊢
    omega
  | submitted other job claimed =>
    have same : other = par := feeder other (by rw [claimed]; rfl)
    exact ⟨inline, fun _ mine => (Option.some.inj mine) ▸ same, total⟩
  | refused other job claimed =>
    refine ⟨inline, nofun, ?_⟩
    simp only [Lanes.total, Lanes.giveBack] at total ⊢
    omega
  | released job member =>
    refine ⟨inline, feeder, ?_⟩
    simp only [Lanes.total] at total ⊢
    omega

end Steps

/-! ### Every run -/

theorem reach_accounted {lanes : Lanes} {ok : Lanes → Label → Bool}
    (reached : Reach step ok {} lanes) : Accounted lanes :=
  reached.invariant ⟨rfl, rfl⟩ fun _ _ _ accounted _ stepped => accounted.step stepped

/-- Both lanes at work under a PAR of 2, and a third job turned away. -/
def Sample.busy : List Label :=
  [.beginCycle (some 2), .enterInline (some 2), .reserve, .admitInline, .claimInline (some 7),
    .claimPool (some 8), .submit true, .reserve]

end QueueWorkflows.GpuLanes
