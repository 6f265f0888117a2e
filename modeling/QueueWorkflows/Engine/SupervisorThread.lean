import QueueWorkflows.Base.History
import QueueWorkflows.Engine.LlmSupervisor
import Mathlib.Tactic.Linarith

/-! The thread of the idle supervisor, which sleeps and then ticks until it is told to stop,
beside the callers of the backend it watches. Whoever stops the supervisor waits for its
thread only so long, and may then put another backend before the same sidecar. -/

namespace QueueWorkflows

open Transaction (Prog)

/-- A caller's section on a backend. -/
inductive Act where
  | requestStart (modelId : String)
  | requestEnd
  | stopServer (killed : Except PyErr Bool)
  | readyBegin (modelId : String) (killed : Except PyErr Bool)
  | readyDone (modelId observed : String)

namespace Sidecar

def act (sidecar : Sidecar) : Act → Sidecar
  | .requestStart modelId => sidecar.markRequestStart modelId
  | .requestEnd => sidecar.markRequestEnd
  | .stopServer killed => (sidecar.stopServer killed).2
  | .readyBegin modelId killed => sidecar.ensureReadyBegin modelId killed
  | .readyDone _ observed => sidecar.ensureReadyDone observed

/-- With this section `ensure_ready` returns: at once on a warm hit, or when the probe has
named the model. -/
def returns (sidecar : Sidecar) : Act → Bool
  | .readyBegin modelId _ => sidecar.isRunning && sidecar.servedModel == some modelId
  | .readyDone modelId observed => observed == modelId
  | _ => false

/-- With this section `ensure_ready` returns, or a request ends. -/
def refreshes (sidecar : Sidecar) : Act → Bool
  | .requestEnd => true
  | act => sidecar.returns act

end Sidecar

namespace LlmSupervisor

/-! ### A tick, section by section -/

/-- The section of a tick that comes next, with what those before it have read. -/
inductive Stage where
  | isRunning
  | inflight (running : Bool)
  | idleSeconds (running : Bool) (inflight : Nat)
  | stopServer
  | done (stopped : Bool)
deriving DecidableEq

namespace Stage

def step (ttlS : ℚ) (killed : Except PyErr Bool) (sidecar : Sidecar) : Stage → Stage × Sidecar
  | .isRunning => (.inflight sidecar.isRunning, sidecar)
  | .inflight running => (.idleSeconds running sidecar.inflight, sidecar)
  | .idleSeconds running count =>
    (if vllmShouldStop running count sidecar.idleSeconds ttlS then .stopServer else .done false,
      sidecar)
  | .stopServer =>
    (.done ((sidecar.stopServer killed).1.toOption.getD false), (sidecar.stopServer killed).2)
  | .done stopped => (.done stopped, sidecar)

/-- What is left of `reap_idle_once`. -/
def program (ttlS : ℚ) (killed : Except PyErr Bool) : Stage → Prog Sidecar Section PyErr Bool
  | .isRunning => reapIdleOnce ttlS killed
  | .inflight running => Prog.handle (do
      let count ← read .inflight Sidecar.inflight
      let idleS ← read .idleSeconds Sidecar.idleSeconds
      if vllmShouldStop running count idleS ttlS then
        let result ← Prog.commit .stopServer fun sidecar => .ok (sidecar.stopServer killed)
        Prog.ofExcept result
      else return false) fun _ => pure false
  | .idleSeconds running count => Prog.handle (do
      let idleS ← read .idleSeconds Sidecar.idleSeconds
      if vllmShouldStop running count idleS ttlS then
        let result ← Prog.commit .stopServer fun sidecar => .ok (sidecar.stopServer killed)
        Prog.ofExcept result
      else return false) fun _ => pure false
  | .stopServer => Prog.handle (do
      let result ← Prog.commit .stopServer fun sidecar => .ok (sidecar.stopServer killed)
      Prog.ofExcept result) fun _ => pure false
  | .done stopped => pure stopped

/-- The stages are those of the program. -/
theorem program_step (ttlS : ℚ) (killed : Except PyErr Bool) (sidecar : Sidecar) (stage : Stage)
    (busy : ∀ stopped, stage ≠ .done stopped) :
    (stage.program ttlS killed).step sidecar =
      some ((stage.step ttlS killed sidecar).1.program ttlS killed,
        (stage.step ttlS killed sidecar).2) := by
  cases stage with
  | isRunning => rfl
  | inflight running => rfl
  | idleSeconds running count =>
    cases decided : vllmShouldStop running count sidecar.idleSeconds ttlS with
    | true => simp [program, step, read, Prog.commit, Prog.handle, Prog.step, decided]
    | false =>
      simp [program, step, read, Prog.commit, Prog.handle, Prog.step, decided]
      rfl
  | stopServer =>
    cases ran : (sidecar.stopServer killed).1 with
    | ok stopped =>
      simp [program, step, Prog.commit, Prog.handle, Prog.step, ran, Except.toOption]
      rfl
    | error error =>
      simp [program, step, Prog.commit, Prog.handle, Prog.step, ran, Except.toOption]
  | done stopped => exact absurd rfl (busy stopped)

end Stage

/-! ### The thread and the calls around it -/

/-- What the supervisor is built with. -/
structure Settings where
  idleTtlS : ℚ
  pollS : Option ℚ := none
  /-- `AI_LEADS_DISABLE_LLM_SUPERVISOR` is set. -/
  disabled : Bool := false

/-- `_enabled`, for a backend of the type `vllm`. -/
def Settings.enabled (settings : Settings) : Bool :=
  !settings.disabled && decide (0 < settings.idleTtlS)

/-- `_poll_interval`. -/
def Settings.pollInterval (settings : Settings) : ℚ :=
  settings.pollS.getD (max 5 (min 60 (settings.idleTtlS / 5)))

/-- Where `_loop` stands; `ended` as well if the thread has not been started. -/
inductive Thread where
  | head
  | sleeping (wakes : ℚ)
  | ticking (stage : Stage)
  | ended
deriving DecidableEq

/-- Where the call of `stop` stands. The flag is set as soon as it has been made. -/
inductive Stopping where
  | uncalled
  | joining (timeout : ℚ)
  | returned
deriving DecidableEq

/-- A supervisor with its backend, and the backend that has replaced that one, if any. Beside
them: the instants at which `ensure_ready` has returned or a request has ended, those of them
that the last reading of the idle time has not seen, and the calls of `stop_server` that
the thread has made after `stop` had returned, each with the backend in use by then. -/
structure Supervised where
  sidecar : Sidecar
  thread : Thread
  stopping : Stopping := .uncalled
  successor : Option Sidecar := none
  events : List ℚ := []
  unseen : List ℚ := []
  late : List (Option Sidecar) := []

inductive Move where
  /-- The thread goes on; `killed` is what `kill_fn` would do. -/
  | turn (killed : Except PyErr Bool)
  | stop
  | joined
  | joinTimesOut
  /-- The rest of `_teardown_entry`, and `_build_entry`. -/
  | replace (killed : Except PyErr Bool)
  | old (act : Act)
  | new (act : Act)
  | clock (now : ℚ)
  | health (healthy : Bool)

namespace Supervised

/-- `start`, on a backend that has just been built. -/
def start (settings : Settings) (sidecar : Sidecar) : Supervised where
  sidecar := sidecar
  thread := if settings.enabled then .head else .ended

/-- The thread is about to call `stop_server`. -/
def armed (supervised : Supervised) : Bool :=
  supervised.thread == .ticking .stopServer

/-- The next turn of `_loop`. -/
def turn (settings : Settings) (killed : Except PyErr Bool) (supervised : Supervised) : Supervised :=
  match supervised.thread with
  | .head =>
    if supervised.stopping = .uncalled then
      { supervised with
        thread := .sleeping (supervised.sidecar.now + settings.pollInterval) }
    else { supervised with thread := .ended }
  | .sleeping wakes =>
    if wakes ≤ supervised.sidecar.now then { supervised with thread := .ticking .isRunning }
    else supervised
  | .ticking (.done _) => { supervised with thread := .head }
  | .ticking stage =>
    let next := stage.step settings.idleTtlS killed supervised.sidecar
    { supervised with
      thread := .ticking next.1
      sidecar := next.2
      unseen :=
        if stage matches .idleSeconds .. then
          supervised.events.filter (supervised.sidecar.lastUsed < ·)
        else supervised.unseen
      late :=
        if supervised.armed && supervised.stopping = .returned then
          supervised.late ++ [supervised.successor]
        else supervised.late }
  | .ended => supervised

/-- `VLLMBackend.__init__`, with the clock and the sidecar of the other one. -/
def rebuilt (sidecar : Sidecar) : Sidecar where
  lastUsed := sidecar.now
  state := .dead
  now := sidecar.now
  healthy := sidecar.healthy

def act (act : Act) (supervised : Supervised) : Supervised :=
  let fresh := if supervised.sidecar.refreshes act then [supervised.sidecar.now] else []
  { supervised with
    sidecar := supervised.sidecar.act act
    events := supervised.events ++ fresh
    unseen := supervised.unseen ++ fresh }

def step (settings : Settings) (supervised : Supervised) : Move → Supervised
  | .turn killed => supervised.turn settings killed
  | .stop =>
    if supervised.stopping = .uncalled then
      { supervised with stopping := .joining (supervised.sidecar.now + 2) }
    else supervised
  | .joined =>
    match supervised.stopping, supervised.thread with
    | .joining _, .ended => { supervised with stopping := .returned }
    | _, _ => supervised
  | .joinTimesOut =>
    match supervised.stopping with
    | .joining timeout =>
      if timeout ≤ supervised.sidecar.now then { supervised with stopping := .returned }
      else supervised
    | _ => supervised
  | .replace killed =>
    if supervised.stopping = .returned ∧ supervised.successor.isNone then
      { supervised with
        sidecar := (supervised.sidecar.stopServer killed).2
        successor := some (rebuilt supervised.sidecar) }
    else supervised
  | .old act => supervised.act act
  | .new act => { supervised with successor := supervised.successor.map fun sidecar => sidecar.act act }
  | .clock now =>
    let tell := fun sidecar : Sidecar => { sidecar with now := max sidecar.now now }
    { supervised with
      sidecar := tell supervised.sidecar, successor := supervised.successor.map tell }
  | .health healthy =>
    let tell := fun sidecar : Sidecar => { sidecar with healthy := healthy }
    { supervised with
      sidecar := tell supervised.sidecar, successor := supervised.successor.map tell }

/-- Any interleaving of the thread with the calls and the world. -/
def after (settings : Settings) (sidecar : Sidecar) (moves : List Move) : Supervised :=
  History.after (step settings) (start settings sidecar) moves

/-- A turn moves the thread along, reads the idle time and decides, or stops the server. -/
theorem turn_cases (settings : Settings) (killed : Except PyErr Bool) (supervised : Supervised) :
    (∃ thread, supervised.turn settings killed = { supervised with thread := thread } ∧
      thread ≠ .ticking .stopServer ∧ supervised.armed = false ∧
      ∀ running count, supervised.thread ≠ .ticking (.idleSeconds running count)) ∨
    (∃ running count, supervised.thread = .ticking (.idleSeconds running count) ∧
      supervised.turn settings killed = { supervised with
        thread := .ticking (if vllmShouldStop running count supervised.sidecar.idleSeconds
          settings.idleTtlS then .stopServer else .done false)
        unseen := supervised.events.filter (supervised.sidecar.lastUsed < ·) }) ∨
    supervised.armed = true ∧ ∃ stopped, supervised.turn settings killed = { supervised with
      thread := .ticking (.done stopped)
      sidecar := (supervised.sidecar.stopServer killed).2
      late := if supervised.stopping = .returned then supervised.late ++ [supervised.successor]
        else supervised.late } := by
  obtain ⟨sidecar, thread, stopping, successor, events, unseen, late⟩ := supervised
  cases thread with
  | head =>
    left
    simp only [turn]
    split
    · exact ⟨_, rfl, nofun, rfl, nofun⟩
    · exact ⟨_, rfl, nofun, rfl, nofun⟩
  | sleeping wakes =>
    left
    simp only [turn]
    split
    · exact ⟨_, rfl, nofun, rfl, nofun⟩
    · exact ⟨_, rfl, nofun, rfl, nofun⟩
  | ended => exact .inl ⟨_, rfl, nofun, rfl, nofun⟩
  | ticking stage =>
    cases stage with
    | isRunning => exact .inl ⟨_, rfl, nofun, rfl, nofun⟩
    | inflight running => exact .inl ⟨_, rfl, nofun, rfl, nofun⟩
    | idleSeconds running count => exact .inr (.inl ⟨running, count, rfl, rfl⟩)
    | stopServer =>
      refine .inr (.inr ⟨rfl, (sidecar.stopServer killed).1.toOption.getD false, ?_⟩)
      simp [turn, Stage.step, armed]
    | done stopped => exact .inl ⟨_, rfl, nofun, rfl, nofun⟩

end Supervised

end LlmSupervisor

end QueueWorkflows
