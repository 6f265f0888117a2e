import QueueWorkflows.Engine.SupervisorThread

/-! How long a vLLM sidecar is left alone. The idle clock is touched by the two edges of a
request and by nothing else, so that a load counts as idle time; and what happens after a
tick has read the clock comes too late for that tick. -/

namespace QueueWorkflows.LlmSupervisor

namespace Supervised

/-- The move is a tick's stop of a sidecar that there is. -/
def stopsSidecar (supervised : Supervised) : Move → Bool
  | .turn _ => supervised.armed && supervised.sidecar.stoppable
  | _ => false

/-- The idle window is over for each of these instants. -/
def Elapsed (settings : Settings) (supervised : Supervised) (instants : List ℚ) : Prop :=
  ∀ instant ∈ instants, settings.idleTtlS ≤ supervised.sidecar.now - instant

/-- What a tick that is about to stop the sidecar has seen is as old as the window. -/
structure Seen (settings : Settings) (supervised : Supervised) : Prop where
  unseen : ∀ instant ∈ supervised.unseen, instant ∈ supervised.events
  seen : supervised.armed = true → ∀ instant ∈ supervised.events,
    instant ∈ supervised.unseen ∨ settings.idleTtlS ≤ supervised.sidecar.now - instant

section Window

variable {settings : Settings} {supervised next : Supervised} {move : Move}

/-- Nothing is forgotten while the clock goes on. -/
theorem Seen.later (seen : Seen settings supervised) (armed : next.armed = supervised.armed)
    (events : next.events = supervised.events) (unseen : next.unseen = supervised.unseen)
    (later : supervised.sidecar.now ≤ next.sidecar.now) : Seen settings next := by
  constructor
  · rw [events, unseen]
    exact seen.unseen
  · intro ready instant member
    rw [events] at member
    rw [unseen]
    refine (seen.seen (armed ▸ ready) instant member).imp id fun elapsed => ?_
    linarith

theorem now_stopServer (sidecar : Sidecar) (killed : Except PyErr Bool) :
    (sidecar.stopServer killed).2.now = sidecar.now := by
  unfold Sidecar.stopServer Sidecar.doStopLocked
  split
  · cases killed <;> rfl
  · rfl

theorem now_ensureReadyBegin (sidecar : Sidecar) (modelId : String) (killed : Except PyErr Bool) :
    (sidecar.ensureReadyBegin modelId killed).now = sidecar.now := by
  unfold Sidecar.ensureReadyBegin
  split
  · split
    · rfl
    · cases killed <;> rfl
  · rfl

theorem now_act (sidecar : Sidecar) (act : Act) : (sidecar.act act).now = sidecar.now := by
  cases act with
  | stopServer killed => exact now_stopServer sidecar killed
  | readyBegin modelId killed => exact now_ensureReadyBegin sidecar modelId killed
  | _ => rfl

theorem Seen.turn (seen : Seen settings supervised) (killed : Except PyErr Bool) :
    Seen settings (supervised.turn settings killed) := by
  rcases supervised.turn_cases settings killed with ⟨thread, turned, unarmed, -⟩ |
    ⟨running, count, -, turned⟩ | ⟨-, stopped, turned⟩
  · rw [turned]
    refine ⟨seen.unseen, fun armed => absurd (beq_iff_eq.mp armed) unarmed⟩
  · rw [turned]
    refine ⟨fun instant member => List.mem_of_mem_filter member, fun armed instant member => ?_⟩
    have decided : vllmShouldStop running count supervised.sidecar.idleSeconds
        settings.idleTtlS = true := by
      by_contra declined
      have standing : Thread.ticking (if vllmShouldStop running count
          supervised.sidecar.idleSeconds settings.idleTtlS then .stopServer else .done false) =
          .ticking .stopServer := beq_iff_eq.mp armed
      rw [if_neg declined] at standing
      cases standing
    rcases lt_or_ge supervised.sidecar.lastUsed instant with after | before
    · exact .inl (List.mem_filter.mpr ⟨member, decide_eq_true after⟩)
    · right
      have elapsed := (idle_of_decided decided).2
      show settings.idleTtlS ≤ supervised.sidecar.now - instant
      linarith
  · rw [turned]
    exact ⟨seen.unseen, nofun⟩

theorem Seen.act (seen : Seen settings supervised) (act : Act) :
    Seen settings (supervised.act act) := by
  constructor
  · intro instant member
    exact (List.mem_append.mp member).elim
      (fun old => List.mem_append_left _ (seen.unseen instant old)) (List.mem_append_right _)
  · intro armed instant member
    rw [show (supervised.act act).sidecar.now = supervised.sidecar.now from now_act ..]
    rcases List.mem_append.mp member with old | fresh
    · exact (seen.seen armed instant old).imp (List.mem_append_left _) id
    · exact .inl (List.mem_append_right _ fresh)

theorem Seen.step (seen : Seen settings supervised) :
    Seen settings (supervised.step settings move) := by
  cases move with
  | turn killed => exact seen.turn killed
  | old act => exact seen.act act
  | new act => exact seen.later rfl rfl rfl le_rfl
  | clock now => exact seen.later rfl rfl rfl (le_max_left _ _)
  | health healthy => exact seen.later rfl rfl rfl le_rfl
  | stop =>
    simp only [Supervised.step]
    split
    · exact seen.later rfl rfl rfl le_rfl
    · exact seen
  | joined =>
    simp only [Supervised.step]
    split
    · exact seen.later rfl rfl rfl le_rfl
    · exact seen
  | joinTimesOut =>
    simp only [Supervised.step]
    split
    · split
      · exact seen.later rfl rfl rfl le_rfl
      · exact seen
    · exact seen
  | replace killed =>
    simp only [Supervised.step]
    split
    · exact seen.later rfl rfl rfl (now_stopServer _ killed).ge
    · exact seen

theorem seen_after (settings : Settings) (sidecar : Sidecar) (moves : List Move) :
    Seen settings (after settings sidecar moves) := by
  induction moves using List.reverseRecOn with
  | nil => exact ⟨nofun, fun _ => nofun⟩
  | append_singleton moves move ih =>
    unfold after at ih ⊢
    rw [History.after_snoc]
    exact ih.step

/-- **A full idle window.** In any run, every stop of the sidecar by the supervisor comes a
whole window after each return of `ensure_ready` and each end of a request, exactly if it does
so after those that the reading of the idle time has not seen: the returns that no edge of
a request has followed, and whatever has come after the reading. -/
theorem full_window_iff (settings : Settings) (sidecar : Sidecar) (moves : List Move) :
    (∀ early move, early ++ [move] <+: moves →
      (after settings sidecar early).stopsSidecar move = true →
        (after settings sidecar early).Elapsed settings (after settings sidecar early).events) ↔
    ∀ early move, early ++ [move] <+: moves →
      (after settings sidecar early).stopsSidecar move = true →
        (after settings sidecar early).Elapsed settings (after settings sidecar early).unseen := by
  have exactly : ∀ early move, (after settings sidecar early).stopsSidecar move = true →
      ((after settings sidecar early).Elapsed settings (after settings sidecar early).events ↔
        (after settings sidecar early).Elapsed settings (after settings sidecar early).unseen) := by
    intro early move stops
    have seen := seen_after settings sidecar early
    have armed : (after settings sidecar early).armed = true := by
      cases move with
      | turn killed => exact (Bool.and_eq_true_iff.mp stops).1
      | _ => cases stops
    constructor
    · exact fun elapsed instant member => elapsed instant (seen.unseen instant member)
    · intro elapsed instant member
      exact (seen.seen armed instant member).elim (elapsed instant) id
  constructor
  · intro full early move listed stops
    exact (exactly early move stops).mp (full early move listed stops)
  · intro full early move listed stops
    exact (exactly early move stops).mpr (full early move listed stops)

end Window

/-! ### A sample -/

/-- A load of seventy seconds, with a window of sixty. -/
def Sample.load : List Move :=
  [.turn (.ok true), .old (.readyBegin "m" (.ok true)), .clock 70, .health true,
    .old (.readyDone "m" "m"), .turn (.ok true), .turn (.ok true), .turn (.ok true), .turn (.ok true)]

def Sample.built : Sidecar where
  lastUsed := 0
  state := .dead
  now := 0
  healthy := false

/-- The sidecar is stopped in the instant in which it has become ready. -/
theorem loaded_sidecar_stopped : ¬ ∀ moves early move, early ++ [move] <+: moves →
    (after { idleTtlS := 60 } Sample.built early).stopsSidecar move = true →
      (after { idleTtlS := 60 } Sample.built early).Elapsed { idleTtlS := 60 }
        (after { idleTtlS := 60 } Sample.built early).events := by
  intro full
  have elapsed := full _ Sample.load (.turn (.ok true)) List.prefix_rfl (by decide +kernel) 70
    (by decide +kernel)
  revert elapsed
  decide +kernel

end Supervised

end QueueWorkflows.LlmSupervisor
