import QueueWorkflows.Backend.Fates
import QueueWorkflows.Engine.Settlement

/-! The shared GPU pool. Apps submit tasks and wait for them; boxes claim tasks from the queues
they serve, run their handlers and settle them, while leases are renewed, lapse and are taken
back, and boxes die. An app is told what one of the runs of its task came to. -/

namespace QueueWorkflows.GpuPool

open Backend (Port Op Reply Fate Fates anyCall)
open Executor (Outcome)
open Transaction (Reach follow)

/-! ### The submitter -/

/-- The arguments of `submit_pool_task`. -/
structure Task where
  queue : String
  handler : String
  model : Option String := none
  inputs : Option Dict := none
  outputDir : Option String := none
  params : Option Dict := none
  priority : Int := 0

def textOrNone (text : Option String) : Json := (text.map Json.str).getD .null

def Task.payload (task : Task) : Dict :=
  [("handler", .str task.handler), ("model", textOrNone task.model),
    ("inputs", .obj (task.inputs.getD [])), ("output_dir", textOrNone task.outputDir),
    ("params", .obj (task.params.getD []))]

/-- `submit_pool_task`: the id is a new one. -/
def Task.submit (task : Task) (uuid : String) : Op :=
  .enqueue task.queue task.payload none task.priority uuid

/-- `PoolTaskFailed`. -/
def poolTaskFailed (taskId error : String) : PyErr :=
  ⟨.other "PoolTaskFailed", "pool task " ++ taskId ++ " failed: " ++ error⟩

/-- What `await_pool_result` makes of a task that has ended. -/
def answer (taskId : String) (row : Backend.Job) : Option (Except PyErr Dict) :=
  match row.status with
  | .completed => some (.ok (row.result.getD []))
  | .failed => some (.error (poolTaskFailed taskId (row.error.getD "None")))
  | .queued | .running => none

def notFound (taskId : String) : PyErr :=
  poolTaskFailed taskId "task not found (lost / wrong namespace)"

def timedOut (taskId : String) (timeoutS : Int) (status : Backend.Status) : PyErr :=
  ⟨.other "TimeoutError", "pool task " ++ taskId ++ " not terminal within " ++ toString timeoutS ++
    "s (status='" ++ status.text ++ "')"⟩

/-- `await_pool_result`, on the clock and the store as its polls find them. -/
def awaitPoolResult {σ ι : Type} (port : Port σ ι) (taskId : String) (timeoutS : Int)
    (began : Time) : List (Time × σ) → Option (Except PyErr Dict)
  | [] => none
  | (now, store) :: polls =>
    match port.get store taskId with
    | none => some (.error (notFound taskId))
    | some row =>
      match answer taskId row with
      | some ended => some ended
      | none =>
        if began + seconds timeoutS ≤ now then some (.error (timedOut taskId timeoutS row.status))
        else awaitPoolResult port taskId timeoutS began polls

/-! ### The boxes -/

inductive Stage where
  /-- The queues that it has still to ask for a task. -/
  | probing (queues : List String)
  | holding (job : Backend.Job)

structure Box where
  worker : Worker
  name : String
  leaseS : Int
  stage : Stage

/-- A run of a task, and what it came to. -/
structure Execution where
  jobId : String
  worker : Worker
  outcome : Except PyErr Outcome

/-- The run ended its task: it was not too late, and its result could be sent. -/
def Execution.settled (execution : Execution) : Bool :=
  match execution.outcome with
  | .ok .completed | .ok .failed => true
  | _ => false

structure Fleet (σ : Type) where
  store : σ
  boxes : List Box := []
  submitted : List (String × Task) := []
  executed : List Execution := []

inductive Label (ι : Type) where
  | submit (task : Task) (uuid : String) (now : Int)
  /-- A box enters `run_pool_worker_once`. -/
  | arrive (worker : Worker) (name : String) (queues : List String) (leaseS : Int)
  /-- It asks for a task of the next of its queues. -/
  | claim (box : Nat) (call : ι)
  /-- The handler of the task has run, and the box settles the task. -/
  | execute (box : Nat) (now : Int)
  | die (box : Nat)
  /-- `renew_pool_lease` and `reclaim_expired_pool_leases`. -/
  | upkeep (call : ι)

/-- `be.claim(q, worker, lease_s=…)`. -/
def claimsFor (queue worker : String) (leaseS : Int) : Op → Bool
  | .claim asked by_ lease => asked == queue && by_ == worker && lease == leaseS
  | _ => false

def isUpkeep : Op → Bool
  | .renewLease .. | .reclaimExpired _ => true
  | _ => false

section Step

variable {σ ι : Type} (client : Client σ ι)

/-- One turn of the loop of `claim_pool_task`. An error ends the run of the box. -/
def Box.probe (box : Box) (fleet : Fleet σ) (index : Nat) (call : ι) : Option (Fleet σ) :=
  match box.stage with
  | .probing (queue :: queues) =>
    if claimsFor queue box.name box.leaseS (client.port.op call) then
      let boxes := match client.port.reply fleet.store call with
        | .job (some job) => fleet.boxes.set index { box with stage := .holding job }
        | .job none => fleet.boxes.set index { box with stage := .probing queues }
        | _ => fleet.boxes.eraseIdx index
      some { fleet with store := client.port.after fleet.store call, boxes }
    else none
  | _ => none

def Box.settle (box : Box) (fleet : Fleet σ) (index : Nat) (now : Int) : Option (Fleet σ) :=
  match box.stage with
  | .holding job =>
    let ran := executePoolTask client box.worker job now fleet.store
    some { fleet with
      store := ran.2
      boxes := fleet.boxes.eraseIdx index
      executed := fleet.executed ++ [⟨job.id, box.worker, ran.1⟩] }
  | _ => none

def step (fleet : Fleet σ) : Label ι → Option (Fleet σ)
  | .submit task uuid now =>
    let call := client.label (task.submit uuid) now
    let store := client.port.after fleet.store call
    match client.port.reply fleet.store call with
    | .enqueued taskId => some { fleet with
        store, submitted := fleet.submitted ++ [(taskId, task)] }
    | _ => some { fleet with store }
  | .arrive worker name queues leaseS =>
    some { fleet with boxes := fleet.boxes ++ [⟨worker, name, leaseS, .probing queues⟩] }
  | .claim index call => fleet.boxes[index]?.bind fun box => box.probe client fleet index call
  | .execute index now => fleet.boxes[index]?.bind fun box => box.settle client fleet index now
  | .die index => some { fleet with boxes := fleet.boxes.eraseIdx index }
  | .upkeep call =>
    if isUpkeep (client.port.op call) then
      some { fleet with store := client.port.after fleet.store call }
    else none

end Step

/-! ### What a run comes to -/

/-- What a run of a task comes to, if this can be sent to the store. -/
inductive Verdict where
  | completed (result : Dict)
  | failed (error : String)

namespace Verdict

def op (jobId : String) : Verdict → Op
  | .completed result => .completeWithEvent jobId "completed" (some result)
  | .failed error => .failWithEvent jobId "failed" (some error)

theorem completed_terminal : Backend.Status.completed.terminal = true := rfl

theorem failed_terminal : Backend.Status.failed.terminal = true := rfl

def ending (jobId : String) : Verdict → Backend.Ending
  | .completed result =>
    { jobId, status := .completed, result := some result, event := some ("completed", none)
      terminal := completed_terminal }
  | .failed error =>
    { jobId, status := .failed, error := some error, event := some ("failed", none)
      terminal := failed_terminal }

theorem op_eq (jobId : String) (verdict : Verdict) :
    verdict.op jobId = .terminal (verdict.ending jobId) := by
  cases verdict <;> rfl

theorem jobId_ending (jobId : String) (verdict : Verdict) :
    (verdict.ending jobId).jobId = jobId := by
  cases verdict <;> rfl

def outcome : Verdict → Outcome
  | .completed _ => .completed
  | .failed _ => .failed

/-- What the submitter is told. -/
def answer (taskId : String) : Verdict → Except PyErr Dict
  | .completed result => .ok result
  | .failed error => .error (poolTaskFailed taskId error)

end Verdict

section Verdicts

variable (encode : List (String × PyValue) → Except PyErr Dict) (worker : Worker)

def sent : Except PyErr PyValue → Option Verdict
  | .error error => some (.failed error.describe)
  | .ok result =>
    match encode result.wrapped with
    | .error _ => none
    | .ok result => some (.completed result)

/-- The handler that the task names is called with the inputs, the directory and the
parameters that the task was submitted with. -/
def Worker.verdict (task : Task) : Option Verdict :=
  match worker.handlers.lookup task.handler with
  | none => some (.failed ("unknown pool handler " ++ worker.repr (.str task.handler) ++
      " on this worker (registered: " ++ sortedNames (worker.handlers.map Prod.fst) ++ ")"))
  | some fn => sent encode
      (fn (.obj (task.inputs.getD [])) (textOrNone task.outputDir) (.obj (task.params.getD [])))

/-- The same, of a row that a claim has returned. -/
def Worker.verdictOn (job : Backend.Job) : Option Verdict :=
  match worker.handler job with
  | .error _ => none
  | .ok none => some (.failed (worker.unknown job))
  | .ok (some fn) =>
    sent encode (fn (fieldOrEmpty job "inputs") (field job "output_dir") (fieldOrEmpty job "params"))

variable {encode worker} {job : Backend.Job} {task : Task}

theorem dict_or_empty (fields : Dict) :
    (if (Json.obj fields).truthy then Json.obj fields else .obj []) = .obj fields := by
  cases fields <;> rfl

/-- The payload brings the task to the box as it was submitted. -/
theorem verdictOn_of_payload (carried : job.payload = task.payload) :
    worker.verdictOn encode job = worker.verdict encode task := by
  have handler : field job "handler" = .str task.handler := by
    rw [field, carried]
    rfl
  have inputs : fieldOrEmpty job "inputs" = .obj (task.inputs.getD []) := by
    have raw : field job "inputs" = .obj (task.inputs.getD []) := by
      rw [field, carried]
      rfl
    rw [fieldOrEmpty, raw]
    exact dict_or_empty _
  have directory : field job "output_dir" = textOrNone task.outputDir := by
    rw [field, carried]
    rfl
  have params : fieldOrEmpty job "params" = .obj (task.params.getD []) := by
    have raw : field job "params" = .obj (task.params.getD []) := by
      rw [field, carried]
      rfl
    rw [fieldOrEmpty, raw]
    exact dict_or_empty _
  unfold Worker.verdictOn Worker.verdict Worker.handler Worker.unknown
  rw [handler]
  dsimp only
  cases worker.handlers.lookup task.handler with
  | none => rfl
  | some fn =>
    dsimp only
    rw [inputs, directory, params]

theorem nonempty_of_char {text : String} (char : Char) (inside : char ∈ text.toList) : text ≠ "" := by
  rintro rfl
  cases inside

theorem verdict_failed_nonempty {error : String}
    (failed : worker.verdict encode task = some (.failed error)) : error ≠ "" := by
  unfold Worker.verdict at failed
  cases found : worker.handlers.lookup task.handler with
  | none =>
    rw [found] at failed
    cases failed
    apply nonempty_of_char 'u'
    simp
  | some fn =>
    rw [found] at failed
    dsimp only at failed
    unfold sent at failed
    cases ran : fn (.obj (task.inputs.getD [])) (textOrNone task.outputDir)
        (.obj (task.params.getD [])) with
    | error raised =>
      rw [ran] at failed
      cases failed
      apply nonempty_of_char ':'
      simp [PyErr.describe]
    | ok result =>
      rw [ran] at failed
      dsimp only at failed
      cases encoded : encode result.wrapped with
      | error refused =>
        rw [encoded] at failed
        cases failed
      | ok dict =>
        rw [encoded] at failed
        cases failed

/-- A submitter is told what the terminal call wrote. -/
theorem answer_of_tells {taskId : String} {verdict : Verdict} {row : Backend.Job}
    (spoken : ∀ error, verdict = .failed error → error ≠ "")
    (tells : row.Tells (verdict.ending taskId)) :
    answer taskId row = some (verdict.answer taskId) := by
  obtain ⟨status, result, told⟩ := tells
  cases verdict with
  | completed dict =>
    unfold answer
    rw [status, result]
    rfl
  | failed error =>
    have text : row.error = some error := by
      have kept : nonEmpty (some error) = some error :=
        Option.filter_some_pos (by simpa using spoken error rfl)
      exact (Option.filter_eq_some_iff.mp (told.trans kept)).1
    unfold answer
    rw [status, text]
    rfl

end Verdicts

/-! ### Runs of the fleet -/

section Runs

variable {σ ι : Type} {client : Client σ ι} {worker : Worker} {job : Backend.Job} {now : Int}
  {store : σ}

/-- A run of a task makes one terminal call, -/
theorem executePoolTask_some {verdict : Verdict}
    (judged : worker.verdictOn client.encode job = some verdict) :
    executePoolTask client worker job now store =
      client.settle (verdict.op job.id) verdict.outcome now store := by
  revert judged
  unfold Worker.verdictOn sent executePoolTask
  rcases worker.handler job with error | _ | fn
  · rintro ⟨⟩
  · rintro ⟨⟩
    rfl
  · dsimp only
    rcases fn _ _ _ with error | result
    · rintro ⟨⟩
      rfl
    · dsimp only
      rcases client.encode result.wrapped with error | encoded
      · rintro ⟨⟩
      · rintro ⟨⟩
        rfl

/-- or raises and makes none. -/
theorem executePoolTask_none (silent : worker.verdictOn client.encode job = none) :
    ∃ error, executePoolTask client worker job now store = (.error error, store) := by
  revert silent
  unfold Worker.verdictOn sent executePoolTask
  rcases worker.handler job with error | _ | fn
  · exact fun _ => ⟨error, rfl⟩
  · rintro ⟨⟩
  · dsimp only
    rcases fn _ _ _ with error | result
    · rintro ⟨⟩
    · dsimp only
      rcases client.encode result.wrapped with error | encoded
      · exact fun _ => ⟨error, rfl⟩
      · rintro ⟨⟩

/-- Every call that a step makes is one that the backend admits. -/
def admitted (client : Client σ ι) (ok : σ → ι → Bool) (fleet : Fleet σ) : Label ι → Bool
  | .submit task uuid now => ok fleet.store (client.label (task.submit uuid) now)
  | .claim _ call | .upkeep call => ok fleet.store call
  | .execute index now => (fleet.boxes[index]?).all fun box =>
    match box.stage with
    | .holding job => (box.worker.verdictOn client.encode job).all fun verdict =>
        ok fleet.store (client.label (verdict.op job.id) now)
    | .probing _ => true
  | .arrive .. | .die _ => true

/-- How many runs have ended a task. -/
def endings (executed : List Execution) (taskId : String) : Nat :=
  executed.countP fun execution => execution.jobId == taskId && execution.settled

/-- The row of a task that has ended says what one of its runs came to. -/
def Explained (client : Client σ ι) (fleet : Fleet σ) (taskId : String) (row : Backend.Job) : Prop :=
  ∃ execution ∈ fleet.executed, execution.jobId = taskId ∧ execution.settled = true ∧
    ∃ task, (taskId, task) ∈ fleet.submitted ∧
      ∃ verdict, execution.worker.verdict client.encode task = some verdict ∧
        answer taskId row = some (verdict.answer taskId)

structure Sound (client : Client σ ι) (firm : Prop) (holds : σ → Prop) (fleet : Fleet σ) : Prop where
  store : holds fleet.store
  rows : ∀ taskId row, client.port.get fleet.store taskId = some row →
    ∃ task, (taskId, task) ∈ fleet.submitted ∧ row.payload = task.payload
  held : ∀ box ∈ fleet.boxes, ∀ job, box.stage = .holding job →
    ∃ task, (job.id, task) ∈ fleet.submitted ∧ job.payload = task.payload
  ended : ∀ taskId row, client.port.get fleet.store taskId = some row →
    row.status.terminal = true → Explained client fleet taskId row
  once : firm → ∀ taskId, endings fleet.executed taskId ≤ 1 ∧
    ((∀ row, client.port.get fleet.store taskId = some row → row.status.terminal = false) →
      endings fleet.executed taskId = 0)

variable {firm : Prop} {ok : σ → ι → Bool} {holds : σ → Prop} {fleet later : Fleet σ}
  {taskId : String} {row : Backend.Job}

theorem Explained.grows (explained : Explained client fleet taskId row)
    (submitted : fleet.submitted ⊆ later.submitted) (executed : fleet.executed ⊆ later.executed) :
    Explained client later taskId row := by
  obtain ⟨execution, ran, named, settled, task, sent, verdict, same, told⟩ := explained
  exact ⟨execution, executed ran, named, settled, task, submitted sent, verdict, same, told⟩

/-- A row after a call is of a task that the call has entered, or was submitted before. -/
theorem Sound.found_after (fates : Fates client.port firm ok holds)
    (sound : Sound client firm holds fleet) {call : ι} (allowed : ok fleet.store call = true)
    (found : client.port.get (client.port.after fleet.store call) taskId = some row) :
    (∃ queue payload given priority uuid,
      client.port.op call = .enqueue queue payload given priority uuid ∧
        client.port.reply fleet.store call = .enqueued taskId ∧ row.payload = payload) ∨
      ∃ task, (taskId, task) ∈ fleet.submitted ∧ row.payload = task.payload := by
  have turn := fates.fate sound.store allowed taskId
  rw [found] at turn
  generalize before : client.port.get fleet.store taskId = old at turn
  cases turn with
  | same => exact .inr (sound.rows taskId row before)
  | entered called own told vacant waits payload =>
    exact .inl ⟨_, _, _, _, _, called, told, payload⟩
  | moved _ waits payload =>
    obtain ⟨task, sent, carried⟩ := sound.rows taskId _ before
    exact .inr ⟨task, sent, payload.trans carried⟩
  | ended _ _ _ _ payload =>
    obtain ⟨task, sent, carried⟩ := sound.rows taskId _ before
    exact .inr ⟨task, sent, payload.trans carried⟩

/-- A task that has ended after a call was explained before, or the call has ended it. -/
theorem Sound.ended_after (fates : Fates client.port firm ok holds)
    (sound : Sound client firm holds fleet) {call : ι} (allowed : ok fleet.store call = true)
    (found : client.port.get (client.port.after fleet.store call) taskId = some row)
    (terminal : row.status.terminal = true) :
    Explained client fleet taskId row ∨
      ∃ ending : Backend.Ending, client.port.op call = .terminal ending ∧ ending.jobId = taskId ∧
        client.port.reply fleet.store call = .job (some row) ∧ row.Tells ending := by
  have turn := fates.fate sound.store allowed taskId
  rw [found] at turn
  generalize before : client.port.get fleet.store taskId = old at turn
  cases turn with
  | same => exact .inl (sound.ended taskId row before terminal)
  | entered _ _ _ _ waits =>
    rw [waits] at terminal
    cases terminal
  | moved _ waits =>
    rw [waits] at terminal
    cases terminal
  | ended called own told _ _ tells => exact .inr ⟨_, called, own, told, tells⟩

/-- A call that ends no task. -/
theorem Sound.call (fates : Fates client.port firm ok holds) (sound : Sound client firm holds fleet)
    {call : ι} (allowed : ok fleet.store call = true) {boxes : List Box}
    {submitted : List (String × Task)}
    (open_ : ∀ ending, client.port.op call ≠ .terminal ending)
    (more : fleet.submitted ⊆ submitted)
    (enters : ∀ queue payload given priority uuid taskId,
      client.port.op call = .enqueue queue payload given priority uuid →
        client.port.reply fleet.store call = .enqueued taskId →
          ∃ task, (taskId, task) ∈ submitted ∧ payload = task.payload)
    (held : ∀ box ∈ boxes, ∀ job, box.stage = .holding job →
      ∃ task, (job.id, task) ∈ submitted ∧ job.payload = task.payload) :
    Sound client firm holds
      { fleet with store := client.port.after fleet.store call, boxes, submitted } := by
  constructor
  · exact fates.keeps sound.store allowed
  · intro taskId row found
    rcases sound.found_after fates allowed found with entered | ⟨task, sent, carried⟩
    · obtain ⟨_, _, _, _, _, called, told, payload⟩ := entered
      obtain ⟨task, sent, carried⟩ := enters _ _ _ _ _ _ called told
      exact ⟨task, sent, payload.trans carried⟩
    · exact ⟨task, more sent, carried⟩
  · exact held
  · intro taskId row found terminal
    rcases sound.ended_after fates allowed found terminal with explained | ⟨_, called, -⟩
    · exact explained.grows more (List.Subset.refl _)
    · exact absurd called (open_ _)
  · intro strict taskId
    obtain ⟨few, none⟩ := sound.once strict taskId
    have fate := fates.fate sound.store allowed taskId
    exact ⟨few, fun unended => none (fate.open_before strict unended)⟩

theorem endings_append (executed : List Execution) (execution : Execution) (taskId : String) :
    endings (executed ++ [execution]) taskId = endings executed taskId +
      (execution.jobId == taskId && execution.settled).toNat := by
  unfold endings
  rw [List.countP_append, List.countP_singleton]
  cases execution.jobId == taskId && execution.settled <;> rfl

theorem store_settle (op : Op) (outcome : Outcome) :
    (client.settle op outcome now store).2 = client.port.after store (client.label op now) := by
  unfold Client.settle Port.after
  rcases client.port.call store (client.label op now) with ⟨reply, after⟩
  rcases reply with _ | (_ | _) | _ | _ | _ | _ <;> rfl

/-- A run has ended its task exactly if the terminal call has returned a row. -/
theorem settled_iff (verdict : Verdict) (op : Op) (jobId : String) :
    (Execution.mk jobId worker (client.settle op verdict.outcome now store).1).settled = true ↔
      ∃ row, client.port.reply store (client.label op now) = .job (some row) := by
  unfold Client.settle Port.reply
  rcases client.port.call store (client.label op now) with ⟨reply, after⟩
  rcases reply with _ | (_ | row) | _ | _ | _ | _
  case job.some =>
    refine iff_of_true ?_ ⟨row, rfl⟩
    cases verdict <;> rfl
  all_goals
    refine iff_of_false Bool.false_ne_true ?_
    rintro ⟨row, told⟩
    cases told

/-- A terminal call ends a task only where no run has ended it before. -/
theorem Sound.once_settled (fates : Fates client.port firm ok holds)
    (sound : Sound client firm holds fleet) {call : ι} (allowed : ok fleet.store call = true)
    {ending : Backend.Ending} (called : client.port.op call = .terminal ending)
    {execution : Execution} (named : execution.jobId = ending.jobId)
    (settled : execution.settled = true ↔
      ∃ row, client.port.reply fleet.store call = .job (some row))
    (strict : firm) (taskId : String) :
    endings (fleet.executed ++ [execution]) taskId ≤ 1 ∧
      ((∀ row, client.port.get (client.port.after fleet.store call) taskId = some row →
        row.status.terminal = false) → endings (fleet.executed ++ [execution]) taskId = 0) := by
  obtain ⟨few, none⟩ := sound.once strict taskId
  have open_before := (fates.fate sound.store allowed taskId).open_before strict
  rw [endings_append]
  by_cases ends : execution.settled = true
  · obtain ⟨row, told⟩ := settled.mp ends
    obtain ⟨before, found, live, stored, tells⟩ := fates.told sound.store allowed called told
    rw [← named] at found stored
    by_cases mine : execution.jobId = taskId
    · subst mine
      have zero := none fun row same => by
        cases found.symm.trans same
        exact live
      rw [zero, ends, beq_self_eq_true]
      refine ⟨le_rfl, fun unended => ?_⟩
      have final : row.status.terminal = true := by
        rw [tells.status]
        exact ending.terminal
      rw [unended row stored] at final
      cases final
    · rw [beq_eq_false_iff_ne.mpr mine]
      exact ⟨few, fun unended => none (open_before unended)⟩
  · rw [Bool.not_eq_true] at ends
    rw [ends, Bool.and_false]
    exact ⟨few, fun unended => none (open_before unended)⟩

/-- A run that makes its terminal call. -/
theorem Sound.settle (fates : Fates client.port firm ok holds)
    (labels : ∀ op now, client.port.op (client.label op now) = op)
    (sound : Sound client firm holds fleet) {verdict : Verdict} {index : Nat}
    (judged : worker.verdictOn client.encode job = some verdict)
    (allowed : ok fleet.store (client.label (verdict.op job.id) now) = true)
    (carried : ∃ task, (job.id, task) ∈ fleet.submitted ∧ job.payload = task.payload) :
    Sound client firm holds { fleet with
      store := (client.settle (verdict.op job.id) verdict.outcome now fleet.store).2
      boxes := fleet.boxes.eraseIdx index
      executed := fleet.executed ++
        [⟨job.id, worker, (client.settle (verdict.op job.id) verdict.outcome now fleet.store).1⟩] } := by
  have settled := @settled_iff _ _ client worker now fleet.store verdict (verdict.op job.id) job.id
  have called : client.port.op (client.label (verdict.op job.id) now) =
      .terminal (verdict.ending job.id) := (labels _ _).trans (verdict.op_eq job.id)
  obtain ⟨execution, run⟩ : ∃ execution, Execution.mk job.id worker
      (client.settle (verdict.op job.id) verdict.outcome now fleet.store).1 = execution := ⟨_, rfl⟩
  rw [store_settle, run]
  rw [run] at settled
  have named : execution.jobId = job.id := by rw [← run]
  have ran : execution.worker = worker := by rw [← run]
  obtain ⟨call, label⟩ : ∃ call, client.label (verdict.op job.id) now = call := ⟨_, rfl⟩
  rw [label] at allowed settled called ⊢
  obtain ⟨task, sent, payload⟩ := carried
  rw [verdictOn_of_payload payload] at judged
  constructor
  · exact fates.keeps sound.store allowed
  · intro taskId row found
    rcases sound.found_after fates allowed found with ⟨_, _, _, _, _, entering, -⟩ | carried
    · cases called.symm.trans entering
    · exact carried
  · intro box there
    exact sound.held box (List.mem_of_mem_eraseIdx there)
  · intro taskId row found terminal
    rcases sound.ended_after fates allowed found terminal with explained | ended
    · exact explained.grows (List.Subset.refl _) (List.subset_append_left ..)
    · obtain ⟨ending, calling, own, told, tells⟩ := ended
      cases called.symm.trans calling
      rw [verdict.jobId_ending] at own
      subst own
      refine ⟨execution, List.mem_append_right _ (List.mem_singleton_self _), named,
        settled.mpr ⟨row, told⟩, task, sent, verdict, ran ▸ judged, answer_of_tells ?_ tells⟩
      rintro error rfl
      exact verdict_failed_nonempty judged
  · exact fun strict taskId =>
      sound.once_settled fates allowed called (named.trans (verdict.jobId_ending job.id).symm)
        settled strict taskId

/-- A run that raises instead. -/
theorem Sound.raises {index : Nat} {error : PyErr} (sound : Sound client firm holds fleet) :
    Sound client firm holds { fleet with
      boxes := fleet.boxes.eraseIdx index
      executed := fleet.executed ++ [⟨job.id, worker, .error error⟩] } := by
  refine ⟨sound.store, sound.rows, ?_, ?_, ?_⟩
  · intro box there
    exact sound.held box (List.mem_of_mem_eraseIdx there)
  · intro taskId row found terminal
    exact (sound.ended taskId row found terminal).grows (List.Subset.refl _)
      (List.subset_append_left ..)
  · intro strict taskId
    rw [endings_append, show (Execution.mk job.id worker (.error error)).settled = false from rfl,
      Bool.and_false]
    exact sound.once strict taskId

theorem isUpkeep_open {op : Op} (upkeep : isUpkeep op = true) (ending : Backend.Ending) :
    op ≠ .terminal ending := by
  rintro rfl
  cases upkeep

theorem claimsFor_iff {queue name : String} {leaseS : Int} {op : Op} :
    claimsFor queue name leaseS op = true ↔ op = .claim queue name leaseS := by
  cases op <;> simp [claimsFor, and_assoc]

/-- A box that asks a queue holds, if anything, a task that was submitted. -/
theorem Sound.probe (fates : Fates client.port firm ok holds)
    (sound : Sound client firm holds fleet) {box : Box} {index : Nat} {call : ι}
    (allowed : ok fleet.store call = true)
    (probed : box.probe client fleet index call = some later) : Sound client firm holds later := by
  unfold Box.probe at probed
  split at probed
  · rename_i queue queues asking
    split at probed
    · rename_i asked
      rw [claimsFor_iff] at asked
      have quiet : ∀ ending, client.port.op call ≠ .terminal ending := by
        intro ending
        rw [asked]
        rintro ⟨⟩
      have enters : ∀ queue payload given priority uuid taskId,
          client.port.op call = .enqueue queue payload given priority uuid →
            client.port.reply fleet.store call = .enqueued taskId →
              ∃ task, (taskId, task) ∈ fleet.submitted ∧ payload = task.payload := by
        intro _ _ _ _ _ _ entering
        cases asked.symm.trans entering
      have moves := fun boxes => @Sound.call _ _ client firm ok holds fleet fates sound call allowed
        boxes fleet.submitted quiet (List.Subset.refl _) enters
      cases probed
      apply moves
      intro other among job holds
      cases replied : client.port.reply fleet.store call with
      | job row =>
        rw [replied] at among
        cases row with
        | some row =>
          rcases List.mem_or_eq_of_mem_set among with old | rfl
          · exact sound.held other old job holds
          · cases holds
            have seen := fates.claimed sound.store allowed asked replied
            exact (moves [] (fun _ none => absurd none List.not_mem_nil)).rows _ _ seen
        | none =>
          rcases List.mem_or_eq_of_mem_set among with old | rfl
          · exact sound.held other old job holds
          · cases holds
      | _ =>
        rw [replied] at among
        exact sound.held other (List.mem_of_mem_eraseIdx among) job holds
    · cases probed
  · cases probed

theorem Sound.step (fates : Fates client.port firm ok holds)
    (labels : ∀ op now, client.port.op (client.label op now) = op) {label : Label ι}
    (sound : Sound client firm holds fleet) (allowed : admitted client ok fleet label = true)
    (stepped : GpuPool.step client fleet label = some later) : Sound client firm holds later := by
  cases label with
  | submit task uuid now =>
    have called := labels (task.submit uuid) now
    have quiet : ∀ ending,
        client.port.op (client.label (task.submit uuid) now) ≠ .terminal ending := by
      intro ending
      rw [called]
      rintro ⟨⟩
    have moves := fun submitted => @Sound.call _ _ client firm ok holds fleet fates sound
      (client.label (task.submit uuid) now) allowed fleet.boxes submitted quiet
    simp only [GpuPool.step] at stepped
    cases replied : client.port.reply fleet.store (client.label (task.submit uuid) now) with
    | enqueued taskId =>
      rw [replied] at stepped
      cases stepped
      apply moves _ (List.subset_append_left ..)
      · intro _ _ _ _ _ other entering told
        cases called.symm.trans entering
        cases replied.symm.trans told
        exact ⟨task, List.mem_append_right _ (List.mem_singleton_self _), rfl⟩
      · intro box there job holds
        obtain ⟨task, sent, carried⟩ := sound.held box there job holds
        exact ⟨task, List.mem_append_left _ sent, carried⟩
    | _ =>
      rw [replied] at stepped
      cases stepped
      apply moves _ (List.Subset.refl _)
      · intro _ _ _ _ _ other _ told
        cases replied.symm.trans told
      · exact sound.held
  | arrive worker name queues leaseS =>
    cases stepped
    refine ⟨sound.store, sound.rows, ?_, sound.ended, sound.once⟩
    intro box there job holds
    rcases List.mem_append.mp there with old | new
    · exact sound.held box old job holds
    · cases List.mem_singleton.mp new
      cases holds
  | claim index call =>
    obtain ⟨box, -, probed⟩ := Option.bind_eq_some_iff.mp stepped
    exact sound.probe fates allowed probed
  | execute index now =>
    obtain ⟨box, there, settled⟩ := Option.bind_eq_some_iff.mp stepped
    simp only [admitted, there, Option.all_some] at allowed
    unfold Box.settle at settled
    cases stands : box.stage with
    | probing queues =>
      rw [stands] at settled
      cases settled
    | holding job =>
      rw [stands] at settled allowed
      cases settled
      have carried := sound.held box (List.mem_of_getElem? there) job stands
      cases judged : box.worker.verdictOn client.encode job with
      | some verdict =>
        simp only [judged, Option.all_some] at allowed
        rw [executePoolTask_some judged]
        exact sound.settle fates labels judged allowed carried
      | none =>
        obtain ⟨error, raises⟩ :=
          @executePoolTask_none _ _ client box.worker job now fleet.store judged
        rw [raises]
        exact sound.raises
  | die index =>
    cases stepped
    refine ⟨sound.store, sound.rows, ?_, sound.ended, sound.once⟩
    intro box there
    exact sound.held box (List.mem_of_mem_eraseIdx there)
  | upkeep call =>
    simp only [GpuPool.step] at stepped
    split at stepped
    · rename_i upkeep
      cases stepped
      apply sound.call fates allowed (isUpkeep_open upkeep) (List.Subset.refl _) _ sound.held
      intro _ _ _ _ _ _ entering
      rw [entering] at upkeep
      cases upkeep
    · cases stepped

/-- What is true of the pool on a backend, from its first state: whoever waits for a task is
told that it is lost, that time is up, or what one of the runs of the task came to, a run of
the handler that it names on what it was submitted with. On a firm backend a task that has
ended stays as it is, and one run has ended it. -/
structure Answers (client : Client σ ι) (firm : Prop) (ok : σ → ι → Bool) (first : σ) : Prop where
  told : ∀ taskId timeoutS began polls ended,
    (∀ poll ∈ polls, ∃ fleet : Fleet σ,
      Reach (GpuPool.step client) (admitted client ok) ⟨first, [], [], []⟩ fleet ∧
        fleet.store = poll.2) →
    awaitPoolResult client.port taskId timeoutS began polls = some ended →
      ended = .error (notFound taskId) ∨ (∃ status, ended = .error (timedOut taskId timeoutS status)) ∨
        ∃ fleet : Fleet σ,
          Reach (GpuPool.step client) (admitted client ok) ⟨first, [], [], []⟩ fleet ∧
          ∃ execution ∈ fleet.executed, execution.jobId = taskId ∧ execution.settled = true ∧
            ∃ task, (taskId, task) ∈ fleet.submitted ∧
              ∃ verdict, execution.worker.verdict client.encode task = some verdict ∧
                ended = verdict.answer taskId
  once : firm → ∀ fleet : Fleet σ,
    Reach (GpuPool.step client) (admitted client ok) ⟨first, [], [], []⟩ fleet →
      ∀ taskId row, client.port.get fleet.store taskId = some row → row.status.terminal = true →
        endings fleet.executed taskId = 1 ∧
          ∀ later, Reach (GpuPool.step client) (admitted client ok) fleet later →
            client.port.get later.store taskId = some row

theorem sound_start {first : σ} (initial : holds first)
    (empty : ∀ taskId, client.port.get first taskId = none) :
    Sound client firm holds ⟨first, [], [], []⟩ := by
  refine ⟨initial, ?_, ?_, ?_, ?_⟩
  · intro taskId row found
    cases (empty taskId).symm.trans found
  · intro box there
    cases there
  · intro taskId row found
    cases (empty taskId).symm.trans found
  · exact fun _ taskId => ⟨Nat.zero_le 1, fun _ => rfl⟩

theorem Sound.reach (fates : Fates client.port firm ok holds)
    (labels : ∀ op now, client.port.op (client.label op now) = op)
    (sound : Sound client firm holds fleet)
    (reached : Reach (GpuPool.step client) (admitted client ok) fleet later) :
    Sound client firm holds later :=
  reached.invariant sound fun _ _ _ sound allowed stepped =>
    sound.step fates labels allowed stepped

/-- A step of the fleet makes at most one call of the port. -/
theorem store_step {label : Label ι} (allowed : admitted client ok fleet label = true)
    (stepped : GpuPool.step client fleet label = some later) : later.store = fleet.store ∨
      ∃ call, ok fleet.store call = true ∧ later.store = client.port.after fleet.store call := by
  cases label with
  | submit task uuid now =>
    refine .inr ⟨client.label (task.submit uuid) now, allowed, ?_⟩
    simp only [GpuPool.step] at stepped
    split at stepped <;>
    · cases stepped
      rfl
  | arrive | die =>
    cases stepped
    exact .inl rfl
  | claim index call =>
    obtain ⟨box, -, probed⟩ := Option.bind_eq_some_iff.mp stepped
    unfold Box.probe at probed
    split at probed
    · split at probed
      · cases probed
        exact .inr ⟨call, allowed, rfl⟩
      · cases probed
    · cases probed
  | execute index now =>
    obtain ⟨box, there, settled⟩ := Option.bind_eq_some_iff.mp stepped
    simp only [admitted, there, Option.all_some] at allowed
    unfold Box.settle at settled
    cases stands : box.stage with
    | probing queues =>
      rw [stands] at settled
      cases settled
    | holding job =>
      rw [stands] at settled allowed
      cases settled
      cases judged : box.worker.verdictOn client.encode job with
      | some verdict =>
        simp only [judged, Option.all_some] at allowed
        rw [executePoolTask_some judged]
        exact .inr ⟨_, allowed, store_settle ..⟩
      | none =>
        obtain ⟨error, raises⟩ :=
          @executePoolTask_none _ _ client box.worker job now fleet.store judged
        rw [raises]
        exact .inl rfl
  | upkeep call =>
    simp only [GpuPool.step] at stepped
    split at stepped
    · cases stepped
      exact .inr ⟨call, allowed, rfl⟩
    · cases stepped

/-- Only what has ended is answered. -/
theorem terminal_of_answer {ended : Except PyErr Dict} (told : answer taskId row = some ended) :
    row.status.terminal = true := by
  unfold answer at told
  cases status : row.status with
  | completed | failed => rfl
  | queued | running =>
    rw [status] at told
    cases told

/-- Who waits goes by one of the rows that it has read. -/
theorem awaitPoolResult_cases {port : Port σ ι} {timeoutS : Int} {began : Time}
    {polls : List (Time × σ)} {ended : Except PyErr Dict}
    (returned : awaitPoolResult port taskId timeoutS began polls = some ended) :
    ended = .error (notFound taskId) ∨ (∃ status, ended = .error (timedOut taskId timeoutS status)) ∨
      ∃ poll ∈ polls, ∃ row, port.get poll.2 taskId = some row ∧ answer taskId row = some ended := by
  induction polls with
  | nil => cases returned
  | cons poll polls ih =>
    unfold awaitPoolResult at returned
    cases found : port.get poll.2 taskId with
    | none =>
      rw [found] at returned
      cases returned
      exact .inl rfl
    | some row =>
      rw [found] at returned
      dsimp only at returned
      cases told : answer taskId row with
      | some answered =>
        rw [told] at returned
        cases returned
        exact .inr (.inr ⟨poll, List.mem_cons_self, row, found, told⟩)
      | none =>
        rw [told] at returned
        dsimp only at returned
        split at returned
        · cases returned
          exact .inr (.inl ⟨row.status, rfl⟩)
        · rcases ih returned with lost | late | ⟨read, member, seen⟩
          · exact .inl lost
          · exact .inr (.inl late)
          · exact .inr (.inr ⟨read, List.mem_cons_of_mem poll member, seen⟩)

theorem answers_of_fates (fates : Fates client.port firm ok holds)
    (labels : ∀ op now, client.port.op (client.label op now) = op) {first : σ}
    (initial : holds first) (empty : ∀ taskId, client.port.get first taskId = none) :
    Answers client firm ok first := by
  have start : Sound client firm holds ⟨first, [], [], []⟩ := sound_start initial empty
  constructor
  · intro taskId timeoutS began polls ended polled returned
    rcases awaitPoolResult_cases returned with lost | late | ⟨poll, member, row, found, told⟩
    · exact .inl lost
    · exact .inr (.inl late)
    · obtain ⟨fleet, reached, same⟩ := polled poll member
      rw [← same] at found
      obtain ⟨execution, ran, named, settled, task, sent, verdict, judged, spoken⟩ :=
        (start.reach fates labels reached).ended taskId row found (terminal_of_answer told)
      refine .inr (.inr
        ⟨fleet, reached, execution, ran, named, settled, task, sent, verdict, judged, ?_⟩)
      exact Option.some.inj (told.symm.trans spoken)
  · intro strict fleet reached taskId row found terminal
    have sound := start.reach fates labels reached
    constructor
    · obtain ⟨execution, ran, named, settled, -⟩ := sound.ended taskId row found terminal
      apply le_antisymm (sound.once strict taskId).1
      apply List.countP_pos_iff.mpr
      exact ⟨execution, ran, by simp [named, settled]⟩
    · intro later onward
      induction onward with
      | start => exact found
      | next label between allowed stepped ih =>
        rcases store_step allowed stepped with same | ⟨call, able, moved⟩
        · rw [same]
          exact ih
        · have kept := (sound.reach fates labels between).store
          rw [moved]
          exact (fates.fate kept able taskId).absorbed strict ih terminal

end Runs

/-- The pool on each backend. On Redis one call out of turn may start an ended task over, so
that a second run ends it again; what a submitter is told is nonetheless true. -/
theorem pool_answers (tostring : Int → Int) (nameSpace : String)
    (encode : List (String × PyValue) → Except PyErr Dict) :
    Answers (postgresClient nameSpace encode) True anyCall {} ∧
      Answers (mongoClient nameSpace encode) True anyCall {} ∧
      Answers (redisClient tostring nameSpace) False anyCall {} ∧
      Answers (redisClient tostring nameSpace) True (Backend.Redis.endsRunning nameSpace) {} := by
  refine ⟨?_, ?_, ?_, ?_⟩
  · exact answers_of_fates (Backend.Postgres.fates nameSpace) (fun _ _ => rfl) trivial fun _ => rfl
  · exact answers_of_fates (Backend.Mongo.fates nameSpace) (fun _ _ => rfl) trivial fun _ => rfl
  · exact answers_of_fates (Backend.Redis.fates tostring nameSpace) (fun _ _ => rfl)
      (Backend.Redis.sane_empty _) fun _ => rfl
  · exact answers_of_fates (Backend.Redis.fates_firm tostring nameSpace) (fun _ _ => rfl)
      (Backend.Redis.matched_empty _) fun _ => rfl

end QueueWorkflows.GpuPool
