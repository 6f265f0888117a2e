import QueueWorkflows.Engine.SupervisorThread

/-! Stopping a supervisor. `stop` sets a flag that the thread only looks at before it sleeps,
and waits for the thread for two seconds, while a sleep may take a minute: the tick after
that sleep is still to come when `stop` has returned. -/

namespace QueueWorkflows.LlmSupervisor

namespace Supervised

/-- `stop` has returned and the thread is about to call `stop_server`, or it has done so. -/
def Final (supervised : Supervised) : Prop :=
  supervised.late = [] ∧ (supervised.stopping = .returned → supervised.armed = false)

/-- A move that keeps the stop final: `stop` does not give up on a thread that has decided to
stop the server, and a tick that goes on after `stop` has returned decides not to. -/
def Harmless (settings : Settings) (supervised : Supervised) : Move → Prop
  | .joinTimesOut => ∀ timeout, supervised.stopping = .joining timeout →
      timeout ≤ supervised.sidecar.now → supervised.armed = false
  | .turn _ => supervised.stopping = .returned → ∀ running count,
      supervised.thread = .ticking (.idleSeconds running count) →
        vllmShouldStop running count supervised.sidecar.idleSeconds settings.idleTtlS = false
  | _ => True

section Final

variable {settings : Settings} {supervised next : Supervised} {move : Move}
  {killed : Except PyErr Bool}

theorem Final.same (final : Final supervised) (late : next.late = supervised.late)
    (stopping : next.stopping = supervised.stopping) (armed : next.armed = supervised.armed) :
    Final next := by
  refine ⟨late.trans final.1, fun returned => ?_⟩
  rw [armed]
  exact final.2 (stopping ▸ returned)

theorem Final.turn (final : Final supervised) :
    Final (supervised.turn settings killed) ↔ Harmless settings supervised (.turn killed) := by
  rcases supervised.turn_cases settings killed with ⟨thread, turned, unarmed, -, elsewhere⟩ |
    ⟨running, count, standing, turned⟩ | ⟨armed, stopped, turned⟩
  · rw [turned]
    refine iff_of_true ⟨final.1, fun _ => ?_⟩ fun _ running count standing => ?_
    · exact beq_eq_false_iff_ne.mpr unarmed
    · exact absurd standing (elsewhere running count)
  · rw [turned]
    constructor
    · rintro ⟨-, unarmed⟩ returned _ _ same
      cases standing.symm.trans same
      by_contra decided
      rw [Bool.not_eq_false] at decided
      have idle := unarmed returned
      simp [armed, decided] at idle
    · intro harmless
      refine ⟨final.1, fun returned => ?_⟩
      have declined := harmless returned running count standing
      simp [armed, declined]
  · have underWay : supervised.stopping ≠ .returned := by
      intro returned
      rw [final.2 returned] at armed
      cases armed
    rw [turned, if_neg underWay]
    refine iff_of_true ⟨final.1, fun _ => rfl⟩ fun returned => absurd returned underWay

/-- A move from a state in which the stop is final. -/
theorem Final.step (final : Final supervised) :
    Final (supervised.step settings move) ↔ Harmless settings supervised move := by
  cases move with
  | turn killed => exact final.turn
  | old act => exact iff_of_true (final.same rfl rfl rfl) trivial
  | new act => exact iff_of_true (final.same rfl rfl rfl) trivial
  | clock now => exact iff_of_true (final.same rfl rfl rfl) trivial
  | health healthy => exact iff_of_true (final.same rfl rfl rfl) trivial
  | stop =>
    refine iff_of_true ?_ trivial
    simp only [Supervised.step]
    split
    · exact ⟨final.1, by rintro ⟨⟩⟩
    · exact final
  | joined =>
    refine iff_of_true ?_ trivial
    simp only [Supervised.step]
    split
    · rename_i ended
      exact ⟨final.1, fun _ => by simp [armed, ended]⟩
    · exact final
  | replace killed =>
    refine iff_of_true ?_ trivial
    simp only [Supervised.step]
    split
    · exact final.same rfl rfl rfl
    · exact final
  | joinTimesOut =>
    cases waits : supervised.stopping with
    | joining timeout =>
      by_cases expired : timeout ≤ supervised.sidecar.now
      · simp only [Supervised.step, Harmless, waits, if_pos expired]
        constructor
        · exact fun last _ _ _ => last.2 rfl
        · exact fun unarmed => ⟨final.1, fun _ => unarmed timeout rfl expired⟩
      · simp only [Supervised.step, Harmless, waits, if_neg expired]
        refine iff_of_true final fun other same passed => ?_
        cases same
        exact absurd passed expired
    | uncalled =>
      simp only [Supervised.step, Harmless, waits]
      exact iff_of_true final (by rintro _ ⟨⟩)
    | returned =>
      simp only [Supervised.step, Harmless, waits]
      exact iff_of_true final (by rintro _ ⟨⟩)

theorem late_turn (settings : Settings) (killed : Except PyErr Bool) (supervised : Supervised) :
    (supervised.turn settings killed).late = supervised.late ++
      if supervised.armed = true ∧ supervised.stopping = .returned then [supervised.successor]
      else [] := by
  rcases supervised.turn_cases settings killed with ⟨thread, turned, -, unarmed, -⟩ |
    ⟨running, count, standing, turned⟩ | ⟨armed, stopped, turned⟩
  · simp [turned, unarmed]
  · simp [turned, armed, standing]
  · rw [turned]
    by_cases returned : supervised.stopping = .returned
    · simp [armed, returned]
    · simp [returned]

/-- The next turn of the thread shows whether the stop is final. -/
theorem final_iff (settings : Settings) : Final supervised ↔
    ∀ killed, (supervised.turn settings killed).late = [] := by
  constructor
  · intro final killed
    have apart : ¬ (supervised.armed = true ∧ supervised.stopping = .returned) := by
      rintro ⟨armed, returned⟩
      rw [final.2 returned] at armed
      cases armed
    rw [late_turn, if_neg apart, List.append_nil]
    exact final.1
  · intro none
    obtain ⟨late, apart⟩ := List.append_eq_nil_iff.mp
      ((late_turn settings (.ok true) supervised).symm.trans (none (.ok true)))
    refine ⟨late, fun returned => ?_⟩
    cases armed : supervised.armed with
    | false => rfl
    | true => simp [armed, returned] at apart

/-- **A final stop.** In no state of a run has the thread called `stop_server` after `stop` had
returned, nor is it about to, exactly if in every move of the run `stop` does not give up on
a thread that has decided to stop the server, and a tick that goes on after `stop` has returned
decides not to. -/
theorem stop_final_iff (settings : Settings) (sidecar : Sidecar) (moves : List Move) :
    (∀ early, early <+: moves → ∀ killed,
      (after settings sidecar (early ++ [.turn killed])).late = []) ↔
    ∀ early move, early ++ [move] <+: moves →
      Harmless settings (after settings sidecar early) move := by
  have begins : Final (start settings sidecar) := ⟨rfl, nofun⟩
  have always := @History.always_iff _ _ (Supervised.step settings) (start settings sidecar) moves
    Final (Harmless settings) begins fun _ _ final => final.step
  have next : ∀ early, Final (after settings sidecar early) ↔
      ∀ killed, (after settings sidecar (early ++ [.turn killed])).late = [] := by
    intro early
    rw [final_iff settings]
    refine forall_congr' fun killed => ?_
    rw [after, after, History.after_snoc]
    rfl
  constructor
  · exact fun none => always.mp fun early listed => (next early).mpr (none early listed)
  · exact fun harmless early listed => (next early).mp (always.mpr harmless early listed)

end Final

/-! ### A sample -/

/-- The thread sleeps while `stop` waits for it, another backend is put before the sidecar and
serves a request, and the thread wakes up. -/
def Sample.replaced : List Move :=
  [.clock 50, .turn (.ok true), .clock 55, .stop, .clock 57, .joinTimesOut, .replace (.ok true),
    .new (.requestStart "m"), .clock 62, .turn (.ok true), .turn (.ok true), .turn (.ok true),
    .turn (.ok true), .turn (.ok true)]

def Sample.idle : Sidecar where
  lastUsed := 0
  state := .serving
  servedModel := some "m"
  now := 0
  healthy := true

/-- The old supervisor kills the sidecar under the request of the new backend. -/
theorem successor_killed :
    ((after { idleTtlS := 60 } Sample.idle Sample.replaced).late.map fun successor =>
      successor.map Sidecar.inflight) = [some 1] ∧
    ¬ ∀ moves, (after { idleTtlS := 60 } Sample.idle moves).late = [] := by
  have killed : ((after { idleTtlS := 60 } Sample.idle Sample.replaced).late.map fun successor =>
      successor.map Sidecar.inflight) = [some 1] := by
    decide +kernel
  refine ⟨killed, fun none => ?_⟩
  rw [none] at killed
  cases killed

end Supervised

end QueueWorkflows.LlmSupervisor
