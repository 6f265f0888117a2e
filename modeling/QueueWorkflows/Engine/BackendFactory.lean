import QueueWorkflows.Base.History
import QueueWorkflows.Base.Keyed
import QueueWorkflows.Engine.Workflow
import Mathlib.Data.List.DropRight
import Mathlib.Data.Rat.Defs
import Mathlib.Tactic.Linarith

/-! The factory of LLM backends. For each worker it keeps the backend that was built for the
configuration it last read, and reads again when the reading has aged or when the trigger on
the configuration's table has told of an edit. -/

namespace QueueWorkflows.BackendFactory

open Dispatcher (strip)

/-! ### The configuration and its trigger -/

/-- `(host_label, queue)`. -/
abbrev Key := String × String

inductive ServerType where
  | ollama
  | vllm
deriving DecidableEq

def ServerType.named : String → Option ServerType
  | "ollama" => some .ollama
  | "vllm" => some .vllm
  | _ => none

structure LLMConfig where
  serverType : ServerType := .ollama
  parallelism : ℤ := 1
  vllmIdleTtlS : ℤ := 60
deriving DecidableEq

/-- A row of `worker_controls`. -/
structure Row where
  key : Key
  config : LLMConfig

def llmConfigFor (rows : List Row) (key : Key) : LLMConfig :=
  match rows.find? fun row => row.key = key with
  | some row => row.config
  | none => {}

/-- The fields given to `set_llm_config`; one that is left out keeps its value. -/
structure LLMEdit where
  serverType : Option String := none
  parallelism : Option ℤ := none
  vllmIdleTtlS : Option ℤ := none

namespace LLMEdit

def check (reprOf : String → String) (edit : LLMEdit) : Except PyErr Unit :=
  if ∃ name ∈ edit.serverType, ServerType.named name = none then
    .error ⟨.valueError, "server_type must be in ['ollama', 'vllm'], got " ++
      reprOf (edit.serverType.getD "")⟩
  else if ∃ parallelism ∈ edit.parallelism, parallelism < 1 then
    .error ⟨.valueError, "parallelism must be >= 1, got " ++ toString (edit.parallelism.getD 0)⟩
  else if ∃ ttl ∈ edit.vllmIdleTtlS, ttl < 0 then
    .error ⟨.valueError, "vllm_idle_ttl_s must be >= 0, got " ++
      toString (edit.vllmIdleTtlS.getD 0)⟩
  else .ok ()

/-- `COALESCE` of the given fields and those of a configuration. -/
def coalesce (edit : LLMEdit) (config : LLMConfig) : LLMConfig where
  serverType := (edit.serverType.bind ServerType.named).getD config.serverType
  parallelism := edit.parallelism.getD config.parallelism
  vllmIdleTtlS := edit.vllmIdleTtlS.getD config.vllmIdleTtlS

end LLMEdit

/-- What `notify_worker_llm_config` sends. -/
def payload (key : Key) : String := key.1 ++ "|" ++ key.2

/-- A payload on its way, with the worker whose row it is about. -/
structure Notice where
  payload : String
  key : Key

def Notice.of (key : Key) : Notice := ⟨BackendFactory.payload key, key⟩

/-- `set_llm_config`, with what the trigger sends as it commits: always on an insert, and on an
update if a column has changed. -/
def setLlmConfig (reprOf : String → String) (rows : List Row) (key : Key) (edit : LLMEdit) :
    Except PyErr (List Row × List Notice) := do
  edit.check reprOf
  match rows.find? fun row => row.key = key with
  | none => return (Keyed.put Row.key ⟨key, edit.coalesce {}⟩ rows, [.of key])
  | some old =>
    return (Keyed.put Row.key ⟨key, edit.coalesce old.config⟩ rows,
      if old.config = edit.coalesce old.config then [] else [.of key])

/-- The key that `_handle_notify` invalidates. -/
def parsePayload (payload : String) : Option Key :=
  if payload = "" ∨ '|' ∉ payload.toList then none
  else
    let hostLabel := String.ofList (payload.toList.takeWhile (· != '|'))
    let queue := String.ofList ((payload.toList.dropWhile (· != '|')).drop 1)
    if hostLabel ≠ "" ∧ queue ≠ "" then some (hostLabel, queue) else none

/-! ### Backends -/

def DEFAULT_OLLAMA_URL : String := "http://host.docker.internal:11434"

def DEFAULT_VLLM_URL : String := "http://host.docker.internal:8000"

/-- What the factory is constructed with, and the values of the variables that hold the URLs. -/
structure Settings where
  ttlS : ℚ := 10
  ollamaUrl : Option String := none
  vllmUrl : Option String := none
  ollamaUrlEnv : String := ""
  vllmUrlEnv : String := ""
  /-- Python's `repr` of a text. -/
  reprOf : String → String

def rstripSlash (url : String) : String := String.ofList (url.toList.rdropWhile (· == '/'))

def normalizeOllama (url : String) : String := rstripSlash url

def normalizeVllm (url : String) : String :=
  let root := (rstripSlash url).toList
  rstripSlash (String.ofList (if "/v1".toList <:+ root then root.take (root.length - 3) else root))

/-- `raw or default`. -/
def orDefault (raw default : String) : String := if raw = "" then default else raw

def Settings.baseUrlFor (settings : Settings) : ServerType → String
  | .ollama => normalizeOllama <|
    settings.ollamaUrl.getD (orDefault (strip settings.ollamaUrlEnv) DEFAULT_OLLAMA_URL)
  | .vllm => normalizeVllm <|
    settings.vllmUrl.getD (orDefault (strip settings.vllmUrlEnv) DEFAULT_VLLM_URL)

/-- The fields of a configuration that decide which backend is built. -/
structure Snapshot where
  serverType : ServerType
  parallelism : ℤ
  vllmIdleTtlS : ℤ
deriving DecidableEq

def Snapshot.fromConfig (config : LLMConfig) : Snapshot :=
  ⟨config.serverType, config.parallelism, config.vllmIdleTtlS⟩

/-- A backend object; `id` is its identity. -/
structure LLMBackend where
  id : ℕ
  serverType : ServerType
  baseUrl : String
  parallelism : ℤ
  idleTtlS : ℤ
deriving DecidableEq

/-- An idle supervisor, which watches one backend. -/
structure Supervisor where
  backend : LLMBackend
deriving DecidableEq

def buildBackend (settings : Settings) (id : ℕ) (snapshot : Snapshot) : LLMBackend where
  id := id
  serverType := snapshot.serverType
  baseUrl := settings.baseUrlFor snapshot.serverType
  parallelism := snapshot.parallelism
  idleTtlS := if snapshot.serverType = .vllm then snapshot.vllmIdleTtlS else 0

/-- The supervisor of a backend, which an Ollama backend has not. -/
def LLMBackend.supervisor (backend : LLMBackend) : Option Supervisor :=
  if backend.serverType = .vllm then some ⟨backend⟩ else none

structure Entry where
  key : Key
  snapshot : Snapshot
  backend : LLMBackend
  supervisor : Option Supervisor
  lastCheck : ℚ
  invalid : Bool := false

/-- Within the TTL and not invalidated. -/
def Entry.hit (ttlS now : ℚ) (entry : Entry) : Bool :=
  !entry.invalid && decide (now - entry.lastCheck < ttlS)

def buildEntry (settings : Settings) (id : ℕ) (key : Key) (snapshot : Snapshot) (now : ℚ) : Entry :=
  let backend := buildBackend settings id snapshot
  { key := key, snapshot := snapshot, backend := backend, supervisor := backend.supervisor,
    lastCheck := now }

/-! ### Runs -/

inductive Event where
  | edited (key : Key) (snapshot : Snapshot)
  | handled (key : Key)
  | began (key : Key) (now : ℚ)
  | read (key : Key) (snapshot : Snapshot) (now : ℚ)
  | supervisorStopped (supervisor : Supervisor)
  | shutdown (backend : LLMBackend)
  | built (key : Key) (backend : LLMBackend)
  | supervisorStarted (supervisor : Supervisor)
  | answered (key : Key) (backend : LLMBackend)
  | stopped
deriving DecidableEq

/-- `_teardown_entry`. -/
def Entry.teardown (entry : Entry) : List Event :=
  (entry.supervisor.map Event.supervisorStopped).toList ++ [.shutdown entry.backend]

/-- What `_build_entry` does. -/
def Entry.building (entry : Entry) : List Event :=
  .built entry.key entry.backend :: (entry.supervisor.map Event.supervisorStarted).toList

/-- The factory, the table it reads and the notifications it has not handled yet. While
`reading` a call of `get_backend` holds the lock, with the reading of the clock it began with. -/
structure Factory where
  rows : List Row
  channel : List Notice := []
  clock : ℚ := 0
  cache : List Entry := []
  reading : Option (Key × ℚ) := none
  builds : ℕ := 0
  trace : List Event := []

inductive Move where
  | setLlmConfig (key : Key) (edit : LLMEdit)
  | handleNotify
  | lose
  | clock (now : ℚ)
  | getBackend (key : Key)
  | llmConfigFor
  | readFails
  | stop

namespace Factory

def find (factory : Factory) (key : Key) : Option Entry :=
  factory.cache.find? fun entry => entry.key = key

def log (factory : Factory) (events : List Event) : Factory :=
  { factory with trace := factory.trace ++ events }

def edit (settings : Settings) (key : Key) (edit : LLMEdit) (factory : Factory) : Factory :=
  match setLlmConfig settings.reprOf factory.rows key edit with
  | .ok (rows, notices) =>
    { factory with rows, channel := factory.channel ++ notices }.log
      [.edited key (.fromConfig (BackendFactory.llmConfigFor rows key))]
  | .error _ => factory

def invalidate (key : Key) (factory : Factory) : Factory :=
  match factory.find key with
  | some entry => { factory with
      cache := Keyed.put Entry.key { entry with invalid := true } factory.cache }
  | none => factory

/-- `_handle_notify` on the payload that is first in line. -/
def handleNotify (factory : Factory) : Factory :=
  match factory.channel with
  | [] => factory
  | notice :: channel =>
    let factory := { factory with channel }
    let factory := match parsePayload notice.payload with
      | some key => factory.invalidate key
      | none => factory
    factory.log [.handled notice.key]

/-- A call of `get_backend` up to its reading of the configuration. -/
def getBackend (settings : Settings) (key : Key) (factory : Factory) : Factory :=
  let now := factory.clock
  let begun := factory.log [.began key now]
  match factory.find key with
  | some entry =>
    if entry.hit settings.ttlS now then begun.log [.answered key entry.backend]
    else { begun with reading := some (key, now) }
  | none => { begun with reading := some (key, now) }

/-- The rest of it, when the configuration has been read. -/
def refresh (settings : Settings) (key : Key) (now : ℚ) (snapshot : Snapshot) (factory : Factory) :
    Factory :=
  let factory := { factory with reading := none }.log [.read key snapshot factory.clock]
  let entry := buildEntry settings factory.builds key snapshot now
  let rebuilt := fun old : List Event =>
    { factory with
      cache := Keyed.put Entry.key entry factory.cache
      builds := factory.builds + 1 }.log (old ++ entry.building ++ [Event.answered key entry.backend])
  match factory.find key with
  | some old =>
    if old.snapshot = snapshot then
      { factory with
        cache := Keyed.put Entry.key { old with lastCheck := now, invalid := false } factory.cache }.log
        [.answered key old.backend]
    else rebuilt old.teardown
  | none => rebuilt []

def stop (factory : Factory) : Factory :=
  { factory with cache := [] }.log (factory.cache.flatMap Entry.teardown ++ [Event.stopped])

/-- One move. What needs the lock waits while a call of `get_backend` holds it, and the clock
does not go back. -/
def step (settings : Settings) (factory : Factory) : Move → Factory
  | .setLlmConfig key edit => factory.edit settings key edit
  | .lose => { factory with channel := factory.channel.tail }
  | .clock now => if factory.clock ≤ now then { factory with clock := now } else factory
  | .handleNotify => if factory.reading = none then factory.handleNotify else factory
  | .getBackend key => if factory.reading = none then factory.getBackend settings key else factory
  | .stop => if factory.reading = none then factory.stop else factory
  | .llmConfigFor => match factory.reading with
    | some (key, now) => factory.refresh settings key now
        (.fromConfig (BackendFactory.llmConfigFor factory.rows key))
    | none => factory
  | .readFails => { factory with reading := none }

def after (settings : Settings) (rows : List Row) (moves : List Move) : Factory :=
  History.after (step settings) { rows } moves

end Factory

end QueueWorkflows.BackendFactory
