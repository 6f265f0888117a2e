import QueueWorkflows.Base.Brackets
import QueueWorkflows.Base.Interference
import QueueWorkflows.Engine.Value
import Mathlib.Algebra.Order.Ring.Unbundled.Rat
import Mathlib.Order.MinMax

/-! The idle supervisor of a vLLM sidecar, `llm_backends.supervisor`, against the request
brackets of `llm_backends.base`. A tick reads liveness, the request count and the idle
time under separate acquisitions of the lock, and stops the server under another one. -/

namespace QueueWorkflows

open Relation (ReflTransGen)
open Transaction (Prog)
open Transaction.Prog (Course commit ofExcept)

inductive VllmState where
  | dead
  | loading
  | serving
  | sleepingL2
  | reloading
  | unsupportedSleep
deriving DecidableEq, Repr

/-- The fields of a `VLLMBackend` under its lock, with what its clock and its health
probe say. `kills` counts the calls of `kill_fn`, and `history` lists the edges of all
request brackets; the code keeps neither. -/
structure Sidecar where
  inflight : Nat := 0
  lastUsed : ℚ
  currentModel : Option String := none
  state : VllmState
  servedModel : Option String := none
  sleepUnsupported : Bool := false
  now : ℚ
  healthy : Bool
  kills : Nat := 0
  history : List Brackets.Mark := []

namespace Sidecar

def markRequestStart (modelId : String) (sidecar : Sidecar) : Sidecar :=
  { sidecar with
    inflight := sidecar.inflight + 1, lastUsed := sidecar.now, currentModel := some modelId
    history := sidecar.history ++ [.opens] }

/-- Floored at zero, so that an unbalanced end does not count. -/
def markRequestEnd (sidecar : Sidecar) : Sidecar :=
  { sidecar with
    inflight := sidecar.inflight - 1, lastUsed := sidecar.now
    history := sidecar.history ++ [.closes] }

def idleSeconds (sidecar : Sidecar) : ℚ :=
  if 0 < sidecar.inflight then 0 else max 0 (sidecar.now - sidecar.lastUsed)

/-- A probe that raises counts as "down". -/
def isRunning (sidecar : Sidecar) : Bool :=
  sidecar.healthy

/-- `killed` is what `kill_fn` returns or raises. -/
def doStopLocked (killed : Except PyErr Bool) (sidecar : Sidecar) : Except PyErr Bool × Sidecar :=
  let signalled := { sidecar with kills := sidecar.kills + 1 }
  match killed with
  | .error error => (.error error, signalled)
  | .ok result => (.ok result, { signalled with state := .dead, servedModel := none })

/-- There is something to stop. -/
def stoppable (sidecar : Sidecar) : Bool :=
  !(sidecar.state == .dead && !sidecar.isRunning)

def stopServer (killed : Except PyErr Bool) (sidecar : Sidecar) : Except PyErr Bool × Sidecar :=
  if sidecar.stoppable then sidecar.doStopLocked killed else (.ok false, sidecar)

/-- `ensure_ready` up to its release of the lock. The in-place reload is a stub that
always raises, and is tried once. -/
def ensureReadyBegin (modelId : String) (killed : Except PyErr Bool) (sidecar : Sidecar) : Sidecar :=
  if sidecar.isRunning then
    if sidecar.servedModel = some modelId then { sidecar with state := .serving }
    else
      let switching := { sidecar with
        state := if sidecar.sleepUnsupported then .reloading else .unsupportedSleep
        sleepUnsupported := true }
      match switching.doStopLocked killed with
      | (.error _, stopped) => stopped
      | (.ok _, stopped) => { stopped with state := .loading }
  else { sidecar with state := .loading }

/-- `ensure_ready` after the health poll; `observed` is the model the probe has named. -/
def ensureReadyDone (observed : String) (sidecar : Sidecar) : Sidecar :=
  { sidecar with servedModel := some observed, state := .serving }

section Frame

variable (sidecar : Sidecar) (killed : Except PyErr Bool)

@[simp] theorem history_doStopLocked : (sidecar.doStopLocked killed).2.history = sidecar.history := by
  cases killed <;> rfl

@[simp] theorem inflight_doStopLocked :
    (sidecar.doStopLocked killed).2.inflight = sidecar.inflight := by
  cases killed <;> rfl

@[simp] theorem kills_doStopLocked : (sidecar.doStopLocked killed).2.kills = sidecar.kills + 1 := by
  cases killed <;> rfl

@[simp] theorem history_stopServer : (sidecar.stopServer killed).2.history = sidecar.history := by
  unfold stopServer
  split <;> simp

@[simp] theorem inflight_stopServer :
    (sidecar.stopServer killed).2.inflight = sidecar.inflight := by
  unfold stopServer
  split <;> simp

theorem kills_stopServer :
    sidecar.kills < (sidecar.stopServer killed).2.kills ↔ sidecar.stoppable = true := by
  unfold stopServer
  split
  · rename_i able
    simp [able]
  · rename_i unable
    simp [unable]

/-- Getting a model ready moves no bracket. -/
theorem brackets_ensureReadyBegin (modelId : String) :
    (sidecar.ensureReadyBegin modelId killed).history = sidecar.history ∧
      (sidecar.ensureReadyBegin modelId killed).inflight = sidecar.inflight := by
  unfold ensureReadyBegin
  split
  · split
    · exact ⟨rfl, rfl⟩
    · cases killed <;> exact ⟨rfl, rfl⟩
  · exact ⟨rfl, rfl⟩

end Frame

/-- What happens to a sidecar between two sections of a tick: other threads' sections,
and the world outside. -/
inductive Moves (sidecar : Sidecar) : Sidecar → Prop
  | requestStart (modelId : String) : Moves sidecar (sidecar.markRequestStart modelId)
  | requestEnd : Moves sidecar sidecar.markRequestEnd
  | stopped (killed : Except PyErr Bool) : Moves sidecar (sidecar.stopServer killed).2
  | readyBegin (modelId : String) (killed : Except PyErr Bool) :
      Moves sidecar (sidecar.ensureReadyBegin modelId killed)
  | readyDone (observed : String) : Moves sidecar (sidecar.ensureReadyDone observed)
  | clock (now : ℚ) : Moves sidecar { sidecar with now := now }
  | health (healthy : Bool) : Moves sidecar { sidecar with healthy := healthy }

end Sidecar

namespace LlmSupervisor

inductive Section where
  | isRunning
  | inflight
  | idleSeconds
  | stopServer
deriving DecidableEq

def vllmShouldStop (running : Bool) (inflight : Nat) (idleS ttlS : ℚ) : Bool :=
  if ttlS ≤ 0 then false else running && inflight == 0 && decide (ttlS ≤ idleS)

/-- A section that only reads. -/
def read {α : Type} (place : Section) (field : Sidecar → α) : Prog Sidecar Section PyErr α :=
  commit place fun sidecar => .ok (field sidecar, sidecar)

/-- One tick for a backend of the type `vllm`; any exception means "did not stop". -/
def reapIdleOnce (idleTtlS : ℚ) (killed : Except PyErr Bool) : Prog Sidecar Section PyErr Bool :=
  Prog.handle (do
    let running ← read .isRunning Sidecar.isRunning
    let inflight ← read .inflight Sidecar.inflight
    let idleS ← read .idleSeconds Sidecar.idleSeconds
    if vllmShouldStop running inflight idleS idleTtlS then
      let result ← commit .stopServer fun sidecar => .ok (sidecar.stopServer killed)
      ofExcept result
    else return false) fun _ => pure false

section Tick

variable {sidecar found after last : Sidecar} {killed : Except PyErr Bool} {ttl : ℚ}
  {moves : List (Sidecar × Sidecar)} {ends : Except PyErr Bool}

/-- The count and the history of the brackets go together, whoever moves. -/
theorem counted_of_moves (moved : ReflTransGen Sidecar.Moves sidecar found) :
    ∃ marks, found.history = sidecar.history ++ marks ∧
      found.inflight = Brackets.counted sidecar.inflight marks := by
  induction moved with
  | refl => exact ⟨[], by simp⟩
  | tail _ move ih =>
    obtain ⟨marks, history, inflight⟩ := ih
    have silent : ∀ {next : Sidecar}, next.history = _ → next.inflight = _ →
        ∃ marks, next.history = sidecar.history ++ marks ∧
          next.inflight = Brackets.counted sidecar.inflight marks :=
      fun same level => ⟨marks, same.trans history, level.trans inflight⟩
    have edge : ∀ mark, ∃ marks, _ = sidecar.history ++ marks ∧
        Brackets.count _ mark = Brackets.counted sidecar.inflight marks := fun mark =>
      ⟨marks ++ [mark], by rw [← List.append_assoc, ← history], by
        rw [Brackets.counted_append, ← inflight]; rfl⟩
    cases move with
    | requestStart modelId => exact edge .opens
    | requestEnd => exact edge .closes
    | stopped killed => exact silent (Sidecar.history_stopServer _ _) (Sidecar.inflight_stopServer _ _)
    | readyBegin modelId killed =>
      obtain ⟨same, level⟩ := Sidecar.brackets_ensureReadyBegin _ killed modelId
      exact silent same level
    | readyDone observed => exact silent rfl rfl
    | clock now => exact silent rfl rfl
    | health healthy => exact silent rfl rfl

/-- A positive decision has read that nothing was in flight, and that the last edge is as old
as the window. -/
theorem idle_of_decided {running : Bool} {inflight : Nat}
    (decided : vllmShouldStop running inflight found.idleSeconds ttl = true) :
    found.inflight = 0 ∧ ttl ≤ found.now - found.lastUsed := by
  unfold vllmShouldStop at decided
  split at decided
  · cases decided
  · rename_i positive
    simp only [Bool.and_eq_true, decide_eq_true_eq] at decided
    have waited := decided.2
    unfold Sidecar.idleSeconds at waited
    split at waited
    · exact absurd waited positive
    · rename_i quiet
      rcases le_max_iff.mp waited with never | elapsed
      · exact absurd never positive
      · exact ⟨Nat.eq_zero_of_not_pos quiet, elapsed⟩

theorem read_cases {α β : Type} {place : Section} {field : Sidecar → α}
    {rest : α → Prog Sidecar Section PyErr β} {handler : PyErr → Prog Sidecar Section PyErr β}
    {ends : Except PyErr β}
    (course : ((read place field >>= rest).handle handler).Course Sidecar.Moves sidecar moves ends
      last) :
    ∃ found tail, ReflTransGen Sidecar.Moves sidecar found ∧ moves = (found, found) :: tail ∧
      ((rest (field found)).handle handler).Course Sidecar.Moves found tail ends last := by
  obtain ⟨found, moved, ⟨value, after, tail, done, rfl, rest⟩ | ⟨_, _, ⟨⟩, -⟩⟩ :=
    course.commit_bind_handle
  cases done
  exact ⟨found, tail, moved, rfl, rest⟩

/-- A tick reads three times, and then ends or stops the server. -/
theorem reapIdleOnce_cases
    (course : (reapIdleOnce ttl killed).Course Sidecar.Moves sidecar moves ends last) :
    ∃ live counted idle, (moves = [(live, live), (counted, counted), (idle, idle)] ∨
      ∃ stop, idle.inflight = 0 ∧ ReflTransGen Sidecar.Moves idle stop ∧
        moves = [(live, live), (counted, counted), (idle, idle), (stop, (stop.stopServer killed).2)]) := by
  obtain ⟨live, _, -, rfl, second⟩ := read_cases course
  obtain ⟨counted, _, -, rfl, third⟩ := read_cases second
  obtain ⟨idle, _, -, rfl, decision⟩ := read_cases third
  refine ⟨live, counted, idle, ?_⟩
  split at decision
  · rename_i decided
    right
    obtain ⟨stop, moved, ⟨result, after, tail, done, rfl, finish⟩ | ⟨_, _, ⟨⟩, -⟩⟩ :=
      decision.commit_bind_handle
    refine ⟨stop, (idle_of_decided decided).1, moved, ?_⟩
    rw [Except.ok.inj done]
    cases result with
    | ok stopped =>
      obtain ⟨rfl, -⟩ := finish.pure_cases
      rfl
    | error error =>
      obtain ⟨rfl, -⟩ := finish.pure_cases
      rfl
  · left
    obtain ⟨rfl, -⟩ := decision.pure_cases
    rfl

/-- **No stop under load.** -/
theorem no_stop_under_load
    (course : (reapIdleOnce ttl killed).Course Sidecar.Moves sidecar moves ends last) :
    (∀ move ∈ moves, move.1.kills < move.2.kills → move.1.inflight = 0) ↔
      ∀ idle stop, moves[2]? = some idle → moves[3]? = some stop → stop.1.stoppable = true →
        ∀ marks, stop.1.history = idle.1.history ++ marks →
          ∀ stretch, stretch <:+ marks → Brackets.Covered 0 stretch := by
  obtain ⟨live, counted, idle, rfl | ⟨stop, quiet, moved, rfl⟩⟩ := reapIdleOnce_cases course
  · simp
  · obtain ⟨marks, history, inflight⟩ := counted_of_moves moved
    rw [quiet] at inflight
    have readings : (∀ move ∈ [(live, live), (counted, counted), (idle, idle),
        (stop, (stop.stopServer killed).2)], move.1.kills < move.2.kills → move.1.inflight = 0) ↔
          (stop.stoppable = true → stop.inflight = 0) := by
      simp [Sidecar.kills_stopServer]
    rw [readings, inflight, Brackets.counted_eq_zero_iff]
    constructor
    · intro covered idle' stop' third fourth able others same
      cases third
      cases fourth
      cases List.append_cancel_left (history.symm.trans same)
      exact covered able
    · exact fun covered able => covered _ _ rfl rfl able marks history

end Tick

end LlmSupervisor

/-! ### A sample -/

open LlmSupervisor (reapIdleOnce)

/-- A server that has been idle for a hundred seconds. -/
def Sample.idle : Sidecar where
  lastUsed := 0
  state := .serving
  servedModel := some "m"
  now := 100
  healthy := true

theorem idle_server_stopped : ∃ moves ends last,
    (reapIdleOnce 60 (.ok true)).Course Sidecar.Moves Sample.idle moves ends last ∧
      ((∀ move ∈ moves, move.1.kills < move.2.kills → move.1.inflight = 0) ↔
        ∀ idle stop, moves[2]? = some idle → moves[3]? = some stop → stop.1.stoppable = true →
          ∀ marks, stop.1.history = idle.1.history ++ marks →
            ∀ stretch, stretch <:+ marks → Brackets.Covered 0 stretch) := by
  obtain ⟨ends, ran⟩ := Option.isSome_iff_exists.mp
    (by decide +kernel : ((reapIdleOnce 60 (.ok true)).run Sample.idle).1.isSome = true)
  obtain ⟨moves, course⟩ := Course.of_run (R := Sidecar.Moves) ran
  exact ⟨moves, _, _, course, LlmSupervisor.no_stop_under_load course⟩

/-- A request begins after the tick has read the idle time. -/
def Sample.pressed : Sidecar :=
  Sample.idle.markRequestStart "m"

theorem request_begun_before_stop : ¬ ∀ moves ends last,
    (reapIdleOnce 60 (.ok true)).Course Sidecar.Moves Sample.idle moves ends last →
      ∀ move ∈ moves, move.1.kills < move.2.kills → move.1.inflight = 0 := by
  intro spared
  have decided : LlmSupervisor.vllmShouldStop true 0 Sample.idle.idleSeconds 60 = true := by
    decide +kernel
  have stops : ((do
      if LlmSupervisor.vllmShouldStop true 0 Sample.idle.idleSeconds 60 then
        let result ← commit LlmSupervisor.Section.stopServer fun sidecar =>
          .ok (sidecar.stopServer (.ok true))
        ofExcept result
      else return false : Prog Sidecar LlmSupervisor.Section PyErr Bool).handle
        fun _ => pure false).Course Sidecar.Moves Sample.idle
        [(Sample.pressed, (Sample.pressed.stopServer (.ok true)).2)] (.ok true)
        (Sample.pressed.stopServer (.ok true)).2 := by
    rw [if_pos decided]
    exact .commits (.single (.requestStart "m")) rfl (.returns _ _)
  have busy := spared _ _ _ (.commits .refl rfl (.commits .refl rfl (.commits .refl rfl stops)))
    (Sample.pressed, (Sample.pressed.stopServer (.ok true)).2) (by simp) (by decide)
  exact absurd busy (by decide)

end QueueWorkflows
