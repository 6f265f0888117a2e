import QueueWorkflows.Base.Finishing
import QueueWorkflows.Engine.LlmSupervisor
import Mathlib.Algebra.Order.Floor.Ring
import Mathlib.Data.Rat.Floor

/-! Getting a vLLM sidecar ready for a model. The backend believes a model to be served from
what a probe has told it, while the sidecar may crash and come up again on the model that
is baked into its container. -/

namespace QueueWorkflows

open Relation (ReflTransGen)
open Transaction (Prog)
open Transaction.Prog (Course Ends commit ofExcept)

/-- A backend with the sidecar behind it: what `/v1/models` would name first. -/
structure Served extends Sidecar where
  serves : Option String := none

/-- What the injected functions do in one call: `kill_fn` and `ensure_up_fn`. -/
structure Seams where
  killed : Except PyErr Bool := .ok true
  ensureUp : Except PyErr Unit := .ok ()

namespace Served

variable (served : Served)

/-- `served_model_fn`: nobody answers for a sidecar that is down. -/
def probe : Option String :=
  if served.healthy then served.serves else none

/-- The backend believes that the sidecar that is up serves the model. -/
def warm (modelId : String) : Bool :=
  served.isRunning && served.servedModel == some modelId

/-- `ensure_ready` up to its release of the lock, and whether that was all. -/
def begin (modelId : String) (killed : Except PyErr Bool) : Except PyErr Bool × Served :=
  (if served.warm modelId then .ok true
    else if served.isRunning then killed.map fun _ => false
    else .ok false,
    { served with toSidecar := served.ensureReadyBegin modelId killed })

/-- The model that the probe has named; a blank answer is taken for the model asked for. -/
def observed (modelId : String) : String :=
  (nonEmpty served.probe).getD modelId

theorem named_of_observed {served : Served} {modelId : String}
    (same : served.observed modelId = modelId) : ∀ name ∈ nonEmpty served.probe, name = modelId := by
  intro name named
  rw [observed, Option.mem_def.mp named] at same
  exact same

/-- Only a sidecar that is up names another model. -/
theorem healthy_of_observed {served : Served} {modelId : String}
    (other : served.observed modelId ≠ modelId) : served.healthy = true := by
  by_contra down
  refine other ?_
  simp [observed, probe, down, nonEmpty]

/-- The probe of `/v1/models`, and what the backend makes of it. -/
def reconcile (modelId : String) : String × Served :=
  (served.observed modelId,
    { served with toSidecar := served.ensureReadyDone (served.observed modelId) })

/-- The sidecar is up, and the probe is blank or names the model. -/
def Ready (modelId : String) : Prop :=
  served.healthy = true ∧ ∀ name ∈ nonEmpty served.probe, name = modelId

end Served

/-- `VLLMBackend` as one caller uses it: the reads and the writes of its calls. -/
inductive VllmIo where
  | begin
  | deadline
  | health
  | clock
  | sleep
  | reconcile
  | stopServer
deriving DecidableEq

/-- What the sidecar and the clock do of themselves. -/
inductive Weather (served : Served) : Served → Prop
  | crash : Weather served { served with healthy := false }
  | respawn (baked : Option String) : Weather served { served with healthy := true, serves := baked }
  | answers (serves : Option String) : Weather served { served with serves }
  | clock (now : ℚ) (later : served.now ≤ now) : Weather served { served with now }

namespace VllmBackend

/-- Python's `f"{value:.0f}"`: to the nearest integer, a tie to the even one. -/
def wholeText (value : ℚ) : String :=
  let low := ⌊value⌋
  let rounded := if value - low < 1 / 2 then low else if 1 / 2 < value - low then low + 1
    else if low % 2 = 0 then low else low + 1
  if value < 0 ∧ rounded = 0 then "-0" else toString rounded

/-- `_HEALTH_POLL_INTERVAL_S`. -/
def healthPollIntervalS : ℚ := 1

/-- The poll turns until the clock has reached the deadline, at the latest. -/
def pollTurns (timeoutS : ℚ) : Nat :=
  ⌈timeoutS / healthPollIntervalS⌉₊ + 1

/-- The loop of `_await_health`, for at most so many turns. -/
def pollHealth (healthUrl : String) (timeoutS deadline : ℚ) : Nat → Prog Served VllmIo PyErr Unit
  | 0 => .diverge
  | turns + 1 => do
    let healthy ← commit .health fun served => .ok (served.isRunning, served)
    if healthy then return ()
    else
      let now ← commit .clock fun served => .ok (served.now, served)
      if deadline ≤ now then
        .raise ⟨.other "TimeoutError", "vLLM sidecar at " ++ healthUrl ++ " not healthy after " ++
          wholeText timeoutS ++ "s"⟩
      else
        commit .sleep fun served => .ok ((), { served with now := served.now + healthPollIntervalS })
        pollHealth healthUrl timeoutS deadline turns

def awaitHealth (healthUrl : String) (timeoutS : ℚ) : Prog Served VllmIo PyErr Unit := do
  let deadline ← commit .deadline fun served => .ok (served.now + timeoutS, served)
  pollHealth healthUrl timeoutS deadline (pollTurns timeoutS)

/-- The tail of `ensure_ready`, without the lock. -/
def bringUp (healthUrl modelId : String) (timeoutS : ℚ) (seams : Seams) :
    Prog Served VllmIo PyErr Unit := do
  ofExcept seams.ensureUp
  awaitHealth healthUrl timeoutS
  let observed ← commit .reconcile fun served => .ok (served.reconcile modelId)
  if observed = modelId then return ()
  else .raise ⟨.runtimeError, "vLLM came up serving '" ++ observed ++ "', not '" ++ modelId ++
    "' (baked --model; cross-model switch needs container recreate)"⟩

def ensureReady (healthUrl modelId : String) (timeoutS : ℚ) (seams : Seams) :
    Prog Served VllmIo PyErr Unit := do
  let begun ← commit .begin fun served => .ok (served.begin modelId seams.killed)
  let warm ← ofExcept begun
  if warm then return ()
  else bringUp healthUrl modelId timeoutS seams

def stopServer (seams : Seams) : Prog Served VllmIo PyErr Bool := do
  let result ← commit .stopServer fun served =>
    .ok ((served.toSidecar.stopServer seams.killed).1,
      { served with toSidecar := (served.toSidecar.stopServer seams.killed).2 })
  ofExcept result

/-! ### The poll ends -/

section Poll

variable {served found after last : Served} {healthUrl modelId : String} {timeoutS deadline : ℚ}
  {turns : Nat} {trace : List (Served × Served)} {ends : Except PyErr Unit}

/-- The clock does not go back. -/
theorem now_le_of_moved (moved : ReflTransGen Weather served found) : served.now ≤ found.now :=
  Prog.stays (fun other => served.now ≤ other.now) (fun _ _ move before => by
    cases move with
    | clock now later => exact before.trans later
    | crash | respawn | answers => exact before) moved le_rfl

/-- Each turn takes the clock further by an interval. -/
theorem pollHealth_ends (soon : deadline ≤ served.now + turns * healthPollIntervalS) :
    (pollHealth healthUrl timeoutS deadline (turns + 1)).Ends Weather served := by
  induction turns generalizing served with
  | zero =>
    refine Ends.commit_bind fun found moved => ?_
    rintro healthy _ ⟨⟩
    split
    · trivial
    · refine Ends.commit_bind fun later moved' => ?_
      rintro now _ ⟨⟩
      have reached := (now_le_of_moved moved).trans (now_le_of_moved moved')
      rw [if_pos (by simpa using soon.trans (by simpa using reached))]
      trivial
  | succ turns ih =>
    refine Ends.commit_bind fun found moved => ?_
    rintro healthy _ ⟨⟩
    split
    · trivial
    · refine Ends.commit_bind fun later moved' => ?_
      rintro now _ ⟨⟩
      split
      · trivial
      · refine Ends.commit_bind fun rested slept => ?_
        rintro _ _ ⟨⟩
        apply ih
        have reached := (now_le_of_moved moved).trans
          ((now_le_of_moved moved').trans (now_le_of_moved slept))
        push_cast at soon
        show deadline ≤ rested.now + healthPollIntervalS + turns * healthPollIntervalS
        linarith

theorem awaitHealth_ends : (awaitHealth healthUrl timeoutS).Ends Weather served := by
  refine Ends.commit_bind fun found moved => ?_
  rintro deadline _ ⟨⟩
  apply pollHealth_ends
  have enough := Nat.le_ceil (timeoutS / healthPollIntervalS)
  simp only [healthPollIntervalS, div_one, mul_one] at enough ⊢
  linarith

/-- Getting ready returns or raises, whatever the sidecar does. -/
theorem ensureReady_ends {seams : Seams} :
    (ensureReady healthUrl modelId timeoutS seams).Ends Weather served := by
  refine Ends.commit_bind fun found moved => ?_
  rintro begun _ ⟨⟩
  refine (Ends.ofExcept _).bind fun warm world => ?_
  split
  · trivial
  · unfold bringUp
    refine (Ends.ofExcept _).bind fun _ world => awaitHealth_ends.bind fun _ world => ?_
    refine Ends.commit_bind fun found moved => ?_
    rintro observed _ ⟨⟩
    split <;> trivial

end Poll

/-! ### One call -/

section Call

variable {served last : Served} {healthUrl modelId : String} {timeoutS deadline : ℚ} {turns : Nat}
  {seams : Seams} {trace : List (Served × Served)} {ends : Except PyErr Unit}

/-- The state of the backend does not change. -/
def Still (before after : Served) : Prop :=
  after.state = before.state

theorem pollHealth_still : (pollHealth healthUrl timeoutS deadline turns).Always Still := by
  induction turns with
  | zero => trivial
  | succ turns ih =>
    refine Prog.Always.bind (Prog.Always.commit ?_) fun healthy => ?_
    · rintro _ _ _ ⟨⟩
      rfl
    · split
      · trivial
      · refine Prog.Always.bind (Prog.Always.commit ?_) fun now => ?_
        · rintro _ _ _ ⟨⟩
          rfl
        · split
          · trivial
          · refine Prog.Always.bind (Prog.Always.commit ?_) fun _ => ih
            rintro _ _ _ ⟨⟩
            rfl

theorem awaitHealth_still : (awaitHealth healthUrl timeoutS).Always Still := by
  refine Prog.Always.bind (Prog.Always.commit ?_) fun _ => pollHealth_still
  rintro _ _ _ ⟨⟩
  rfl

theorem still_of_awaitHealth
    (course : (awaitHealth healthUrl timeoutS).Course Weather served trace ends last) :
    ∀ move ∈ trace, Still move.1 move.2 :=
  course.each (fun _ => rfl) awaitHealth_still

/-- The call stays clear of what the backend takes on trust: a model it believes to be served
is, and the sidecar is still up when the probe of `/v1/models` comes. -/
def Undisturbed (modelId : String) (trace : List (Served × Served)) : Prop :=
  (∀ move ∈ trace.head?, move.1.warm modelId = true →
    ∀ name ∈ nonEmpty move.1.probe, name = modelId) ∧
  ∀ move ∈ trace, move.1.state = .loading → move.2.state = .serving → move.1.healthy = true

theorem state_of_weather {before after : Served} (move : Weather before after) :
    Still before after := by
  cases move <;> rfl

/-- The bring-up is truthful exactly if the sidecar is up when it is asked for its model. -/
theorem bringUp_exact
    (course : (bringUp healthUrl modelId timeoutS seams).Course Weather served trace ends last)
    (loading : served.state = .loading) :
    (ends = .ok () → last.Ready modelId) ↔
      ∀ move ∈ trace, move.1.state = .loading → move.2.state = .serving → move.1.healthy = true := by
  have quiet : ∀ {polled : List (Served × Served)}, (∀ move ∈ polled, Still move.1 move.2) →
      ∀ move ∈ polled, move.1.state = .loading → move.2.state = .serving →
        move.1.healthy = true := by
    intro polled still move member was is
    have same := still move member
    rw [Still, was, is] at same
    cases same
  rcases course.ofExcept_bind with ⟨_, -, course⟩ | ⟨error, -, rfl, rfl, -⟩
  · rcases course.bind_cases with ⟨_, healthy, first, second, polled, rest, rfl⟩ | ⟨error, polled, rfl⟩
    · have held : healthy.state = .loading :=
        Prog.stays (fun world : Served => world.state = .loading) (fun before after move was =>
          (move.elim state_of_weather id).trans was) (polled.moves awaitHealth_still) loading
      obtain ⟨found, moved, ⟨observed, after, tail, done, rfl, finish⟩ | ⟨_, failed, -⟩⟩ :=
        rest.commit_bind
      · have loaded : found.state = .loading :=
          Prog.stays (fun world : Served => world.state = .loading) (fun before after move was =>
            (state_of_weather move).trans was) moved held
        cases done
        have asked : tail = [] ∧ ((ends = .ok () → last.Ready modelId) ↔ found.healthy = true) := by
          split at finish
          · rename_i same
            obtain ⟨rfl, rfl, rfl⟩ := finish.pure_cases
            refine ⟨rfl, fun ready => (ready rfl).1, fun up _ => ⟨up, ?_⟩⟩
            exact Served.named_of_observed same
          · rename_i other
            cases finish
            refine ⟨rfl, fun _ => Served.healthy_of_observed other, fun _ returned => ?_⟩
            cases returned
        obtain ⟨rfl, asked⟩ := asked
        rw [asked]
        constructor
        · intro up move member was is
          rcases List.mem_append.mp member with early | late
          · exact quiet (still_of_awaitHealth polled) move early was is
          · rw [List.mem_singleton.mp late]
            exact up
        · intro fine
          exact fine (found, _) (List.mem_append_right _ List.mem_cons_self) loaded rfl
      · cases failed
    · refine iff_of_true (fun returned => ?_) (quiet (still_of_awaitHealth polled))
      cases returned
  · refine iff_of_true (fun returned => ?_) (quiet fun move member => absurd member List.not_mem_nil)
    cases returned

/-- The section that begins a call: a warm hit, the bring-up, or a kill that has raised. -/
theorem begin_cases {killed begun : Except PyErr Bool} {after : Served}
    (done : served.begin modelId killed = (begun, after)) :
    (after.healthy = served.healthy ∧ after.serves = served.serves) ∧
    ((served.warm modelId = true ∧ begun = .ok true ∧ after.state = .serving) ∨
      served.warm modelId = false ∧ after.state ≠ .serving ∧
        (begun = .ok false ∧ after.state = .loading ∨ ∃ error, begun = .error error)) := by
  unfold Served.begin at done
  cases done
  unfold Served.warm Sidecar.ensureReadyBegin
  cases running : served.isRunning with
  | false => simp
  | true =>
    by_cases same : served.servedModel = some modelId
    · simp [same]
    · cases killed with
      | ok stopped => simp [same, Sidecar.doStopLocked, Except.map]
      | error error =>
        cases served.sleepUnsupported <;> simp [same, Sidecar.doStopLocked, Except.map]

theorem undisturbed_cons {found after : Served} {tail : List (Served × Served)}
    (cold : found.warm modelId = false) (idle : after.state ≠ .serving) :
    Undisturbed modelId ((found, after) :: tail) ↔
      ∀ move ∈ tail, move.1.state = .loading → move.2.state = .serving → move.1.healthy = true := by
  simp [Undisturbed, cold, idle]

/-- One call is truthful exactly if nothing comes between its belief and the sidecar. -/
theorem ensureReady_exact
    (course : (ensureReady healthUrl modelId timeoutS seams).Course Weather served trace ends last) :
    (ends = .ok () → last.Ready modelId) ↔ Undisturbed modelId trace := by
  obtain ⟨found, moved, ⟨begun, after, tail, done, rfl, rest⟩ | ⟨_, failed, -⟩⟩ := course.commit_bind
  · obtain ⟨⟨healthy, serves⟩, ⟨warm, rfl, -⟩ | ⟨cold, idle, ⟨rfl, loading⟩ | ⟨error, rfl⟩⟩⟩ :=
      begin_cases (Except.ok.inj done)
    · obtain ⟨rfl, rfl, rfl⟩ := rest.pure_cases
      have up : found.healthy = true := (Bool.and_eq_true_iff.mp warm).1
      have probe : last.probe = found.probe := by rw [Served.probe, healthy, serves, Served.probe]
      simp [Undisturbed, Served.Ready, warm, up, healthy, probe]
    · rw [undisturbed_cons cold idle]
      exact bringUp_exact rest loading
    · rw [undisturbed_cons cold idle]
      cases rest
      exact iff_of_true (fun returned => by cases returned) fun _ member => by cases member
  · cases failed

end Call

/-! ### Any sequence of calls -/

/-- What the caller asks of the backend. -/
inductive Request where
  | ensureReady (modelId : String) (timeoutS : ℚ) (seams : Seams)
  | stopServer (seams : Seams)

/-- A call that has come to its end. -/
structure Answer where
  request : Request
  trace : List (Served × Served)
  ends : Except PyErr (Option Bool)
  last : Served

/-- The call, with what a stop returns. -/
def Request.run (healthUrl : String) : Request → Prog Served VllmIo PyErr (Option Bool)
  | .ensureReady modelId timeoutS seams => do
    VllmBackend.ensureReady healthUrl modelId timeoutS seams
    return none
  | .stopServer seams => do
    let stopped ← VllmBackend.stopServer seams
    return some stopped

/-- The calls of one caller, one after the other, with the sidecar doing what it likes before
and during each of them. -/
inductive Session (healthUrl : String) (first : Served) : List Answer → Served → Prop
  | opened : Session healthUrl first [] first
  | called {answers : List Answer} {served found : Served} (answer : Answer)
      (before : Session healthUrl first answers served)
      (moved : ReflTransGen Weather served found)
      (course : (answer.request.run healthUrl).Course Weather found answer.trace answer.ends
        answer.last) : Session healthUrl first (answers ++ [answer]) answer.last

/-- A call that has returned normally has left the model ready. -/
def Answer.Truthful (answer : Answer) : Prop :=
  match answer.request with
  | .ensureReady modelId _ _ => answer.ends = .ok none → answer.last.Ready modelId
  | .stopServer _ => True

def Answer.Undisturbed (answer : Answer) : Prop :=
  match answer.request with
  | .ensureReady modelId _ _ => VllmBackend.Undisturbed modelId answer.trace
  | .stopServer _ => True

section Session

variable {healthUrl : String} {first last served : Served} {answers : List Answer}
  {answer : Answer} {request : Request}

theorem run_ends : (request.run healthUrl).Ends Weather served := by
  cases request with
  | ensureReady modelId timeoutS seams => exact ensureReady_ends.bind fun _ _ => trivial
  | stopServer seams =>
    refine Ends.bind ?_ fun _ _ => trivial
    refine Ends.commit_bind fun found moved => ?_
    rintro result _ ⟨⟩
    exact Ends.ofExcept _

theorem truthful_iff
    (course : (answer.request.run healthUrl).Course Weather served answer.trace answer.ends
      answer.last) : answer.Truthful ↔ answer.Undisturbed := by
  unfold Answer.Truthful Answer.Undisturbed
  cases asked : answer.request with
  | stopServer seams => exact Iff.rfl
  | ensureReady modelId timeoutS seams =>
    rw [asked] at course
    show (answer.ends = .ok none → answer.last.Ready modelId) ↔
      VllmBackend.Undisturbed modelId answer.trace
    rcases course.bind_cases with ⟨_, ready, first, second, own, rest, trace⟩ | ⟨error, own, ends⟩
    · obtain ⟨rfl, ends, last⟩ := rest.pure_cases
      rw [List.append_nil] at trace
      rw [trace, ends, last, ← ensureReady_exact own]
      simp
    · rw [ends, ← ensureReady_exact own]
      simp

/-- **Readiness.** A call always comes to its end. In every session, every `ensure_ready` that
returns normally leaves the sidecar up with the probe blank or naming its model, exactly if no
warm hit finds another model served and no crash comes between the health poll and the probe. -/
theorem readiness_truthful_iff (session : Session healthUrl first answers last) :
    (∀ request : Request, (request.run healthUrl).Ends Weather last) ∧
      ((∀ answer ∈ answers, answer.Truthful) ↔ ∀ answer ∈ answers, answer.Undisturbed) := by
  refine ⟨fun request => run_ends, ?_⟩
  induction session with
  | opened => exact iff_of_true (fun _ member => by cases member) fun _ member => by cases member
  | called answer before moved course ih =>
    simp only [List.forall_mem_append, List.forall_mem_singleton, ih, truthful_iff course]

end Session

/-! ### Samples -/

/-- A backend that has just been built, before a sidecar that is up. -/
def Sample.fresh : Served where
  lastUsed := 0
  state := .dead
  now := 0
  healthy := true
  serves := some "m"

def Sample.asked : Request :=
  .ensureReady "m" 90 {}

/-- The answer to the first call, in calm weather. -/
def Sample.calm (served : Served) : Option (Except PyErr (Option Bool)) × Served :=
  (Sample.asked.run "http://vllm:8000/health").run served

theorem calm_session_truthful : ∃ answers last,
    Session "http://vllm:8000/health" Sample.fresh answers last ∧ answers.length = 1 ∧
      (∀ request : Request, (request.run "http://vllm:8000/health").Ends Weather last) ∧
      ((∀ answer ∈ answers, answer.Truthful) ↔ ∀ answer ∈ answers, answer.Undisturbed) := by
  obtain ⟨ends, ran⟩ := Option.isSome_iff_exists.mp
    (by decide +kernel : (Sample.calm Sample.fresh).1.isSome = true)
  obtain ⟨trace, course⟩ := Course.of_run (R := Weather) ran
  have session := Session.called ⟨Sample.asked, trace, ends, _⟩ .opened .refl course
  exact ⟨_, _, session, rfl, readiness_truthful_iff session⟩

/-- The sidecar crashes and comes up again on the model that is baked in. -/
def Sample.respawned : Served :=
  { (Sample.calm Sample.fresh).2 with healthy := true, serves := some "baked" }

/-- The second call trusts what the first one has been told. -/
theorem respawned_sidecar_trusted : ¬ ∀ answers last,
    Session "http://vllm:8000/health" Sample.fresh answers last →
      ∀ answer ∈ answers, answer.Truthful := by
  intro truthful
  have returns : (Sample.calm Sample.fresh).1 = some (.ok none) ∧
      (Sample.calm Sample.respawned).1 = some (.ok none) := by
    decide +kernel
  obtain ⟨trace, course⟩ := Course.of_run (R := Weather) returns.1
  obtain ⟨second, trusted⟩ := Course.of_run (R := Weather) returns.2
  have crashed : Weather (Sample.calm Sample.fresh).2
      { (Sample.calm Sample.fresh).2 with healthy := false } := .crash
  have moved : ReflTransGen Weather (Sample.calm Sample.fresh).2 Sample.respawned :=
    (ReflTransGen.single crashed).tail (.respawn (some "baked"))
  have session := Session.called ⟨Sample.asked, second, .ok none, _⟩
    (.called ⟨Sample.asked, trace, .ok none, _⟩ .opened .refl course) moved trusted
  have ready := truthful _ _ session _ (List.mem_append_right _ List.mem_cons_self) rfl
  have named : nonEmpty (Sample.calm Sample.respawned).2.probe = some "baked" := by
    decide +kernel
  exact absurd (ready.2 "baked" named) (by decide)

end VllmBackend

end QueueWorkflows
