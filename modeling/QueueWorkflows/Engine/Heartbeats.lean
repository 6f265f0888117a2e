import QueueWorkflows.Engine.Capacity
import QueueWorkflows.Engine.System

/-! The two writers of a GPU worker's row in `worker_heartbeats`: the emitter, which
advertises the machine's capacity every ten seconds, and the model cache, which publishes
its slot whenever it swaps a model. Both go through one upsert. -/

namespace QueueWorkflows

open Relational (Table)

/-- The columns that advertise a machine's capacity. -/
structure Capacity where
  concurrency : Int
  knownModels : List String
  llmServersAvailable : List String
  vramTotalMb : Option Nat
  fitsModels : List String
deriving DecidableEq, Repr

/-- A row of `worker_heartbeats` with all its columns. -/
structure HeartbeatRow extends Capacity where
  hostLabel : String
  queue : String
  project : String
  currentModel : Option String
  lastSeen : Time
  lastFlaggedDeadAt : Option Time
deriving DecidableEq, Repr

/-- The columns that the engine's sweeps and gates read. -/
def HeartbeatRow.worker (row : HeartbeatRow) : WorkerHeartbeat where
  hostLabel := row.hostLabel
  queue := row.queue
  project := row.project
  lastSeen := row.lastSeen
  concurrency := row.concurrency
  vramTotalMb := row.vramTotalMb.map Int.ofNat
  fitsModels := row.fitsModels
  lastFlaggedDeadAt := row.lastFlaggedDeadAt

def HeartbeatRow.key (row : HeartbeatRow) : String × String × String :=
  (row.hostLabel, row.queue, row.project)

abbrev HeartbeatTable := Table HeartbeatRow HeartbeatRow.key Eq

namespace NodeQueue

/-- The keywords of `upsert_worker_heartbeat`. -/
structure Upsert where
  hostLabel : String
  queue : String
  concurrency : Int
  currentModel : Option String := none
  knownModels : Option (List String) := none
  llmServersAvailable : Option (List String) := none
  vramTotalMb : Option Nat := none
  fitsModels : Option (List String) := none
  updateCurrentModel : Bool := true
  project : String
deriving DecidableEq, Repr

namespace Upsert

def key (call : Upsert) : String × String × String :=
  (call.hostLabel, call.queue, call.project)

/-- What the call advertises, by its defaults where it passes nothing. -/
def capacity (call : Upsert) : Capacity where
  concurrency := call.concurrency
  knownModels := call.knownModels.getD []
  llmServersAvailable := call.llmServersAvailable.getD ["ollama"]
  vramTotalMb := call.vramTotalMb
  fitsModels := call.fitsModels.getD []

/-- The row of `VALUES`. -/
def inserted (call : Upsert) (now : Time) : HeartbeatRow where
  toCapacity := call.capacity
  hostLabel := call.hostLabel
  queue := call.queue
  project := call.project
  currentModel := call.currentModel
  lastSeen := now
  lastFlaggedDeadAt := none

/-- `ON CONFLICT … DO UPDATE SET`. -/
def updated (call : Upsert) (now : Time) (row : HeartbeatRow) : HeartbeatRow :=
  { row with
    toCapacity := call.capacity
    currentModel := if call.updateCurrentModel then call.currentModel else row.currentModel
    lastSeen := now
    lastFlaggedDeadAt := none }

theorem key_updated (call : Upsert) {now : Time} (row : HeartbeatRow) :
    (call.updated now row).key = row.key := rfl

end Upsert

def upsertWorkerHeartbeat (call : Upsert) (now : Time) (table : HeartbeatTable) : HeartbeatTable :=
  table.upsert (call.inserted now) (call.updated now) call.key_updated

end NodeQueue

open NodeQueue (Upsert upsertWorkerHeartbeat)

/-- What `HeartbeatEmitter` was built with. -/
structure HeartbeatEmitter where
  queue : String
  hostLabel : String
  project : String
  hasModelCache : Bool := false
  hasConcurrencyFn : Bool := false

/-- What a tick reads: the registry where the known ids are listed and again where those
that fit are, the VRAM probe if it runs, the live PAR, the slot of the cache. `raised` is
what the statement raises. -/
structure Tick where
  now : Time
  registry : ModelRegistry
  probe : Except PyErr (Option Nat) := .ok none
  parallelism : Except PyErr Int := .ok 1
  cached : Option String := none
  llmServers : List String := ["ollama"]
  fitting : ModelRegistry := registry
  raised : Option PyErr := none

namespace HeartbeatEmitter

def currentModel (emitter : HeartbeatEmitter) (tick : Tick) : Option String :=
  if emitter.queue ≠ "gpu" ∨ !emitter.hasModelCache then none else tick.cached

def concurrency (emitter : HeartbeatEmitter) (tick : Tick) : Int :=
  if emitter.hasConcurrencyFn then
    match tick.parallelism with
    | .ok par => max 1 par
    | .error _ => 1
  else 1

/-- The probe runs once; `probed` is what it said. A failure counts as "unknown". -/
def vramTotalMb (emitter : HeartbeatEmitter) (probed : Option (Option Nat)) (tick : Tick) :
    Option Nat × Option (Option Nat) :=
  if emitter.queue ≠ "gpu" then (none, probed)
  else
    match probed with
    | some total => (total, probed)
    | none =>
      match tick.probe with
      | .ok total => (total, some total)
      | .error _ => (none, some none)

def fitsModels (emitter : HeartbeatEmitter) (known : List String) (total : Option Nat)
    (tick : Tick) : List String :=
  if emitter.queue ≠ "gpu" then [] else (tick.fitting.fitsWithin total).filter known.contains

/-- The keywords that `emit_once` passes. -/
def call (emitter : HeartbeatEmitter) (total : Option Nat) (tick : Tick) : Upsert where
  hostLabel := emitter.hostLabel
  queue := emitter.queue
  project := emitter.project
  concurrency := emitter.concurrency tick
  currentModel := emitter.currentModel tick
  knownModels := some tick.registry.knownIds
  llmServersAvailable := some tick.llmServers
  vramTotalMb := total
  fitsModels := some (emitter.fitsModels tick.registry.knownIds total tick)

end HeartbeatEmitter

/-- One call of `_publish_current_model`: whether heartbeats are disabled at that time, the
registry it lists, and what the statement raises. -/
structure Publication where
  now : Time
  modelId : Option String
  registry : ModelRegistry
  disabled : Bool := false
  raised : Option PyErr := none

/-- The keywords that `_publish_current_model` passes. -/
def Publication.call (publication : Publication) (hostLabel project : String) : Upsert where
  hostLabel := hostLabel
  queue := "gpu"
  project := project
  concurrency := 1
  currentModel := publication.modelId
  knownModels := some publication.registry.knownIds

/-- The statement runs and commits. -/
def Publication.writes (publication : Publication) : Bool :=
  !publication.disabled && publication.raised.isNone

namespace Heartbeats

/-- The table, what the emitter has probed, and what its last `emit_once` has written,
of which the code keeps no record. -/
structure State where
  table : HeartbeatTable
  probed : Option (Option Nat) := none
  recent : Option Capacity := none

/-- Whatever is raised is logged and swallowed. -/
def emitOnce (emitter : HeartbeatEmitter) (tick : Tick) (state : State) : State :=
  let (total, probed) := emitter.vramTotalMb state.probed tick
  let call := emitter.call total tick
  match tick.raised with
  | some _ => { state with probed := probed }
  | none =>
    { table := upsertWorkerHeartbeat call tick.now state.table
      probed := probed
      recent := some call.capacity }

def publishCurrentModel (hostLabel project : String) (publication : Publication) (state : State) :
    State :=
  if publication.disabled then state
  else
    match publication.raised with
    | some _ => state
    | none =>
      { state with
        table := upsertWorkerHeartbeat (publication.call hostLabel project) publication.now
          state.table }

inductive Step where
  | emit (tick : Tick)
  | publish (publication : Publication)

/-- Both writers run in one worker process, under its host label and project. -/
def step (emitter : HeartbeatEmitter) (state : State) : Step → State
  | .emit tick => emitOnce emitter tick state
  | .publish publication =>
    publishCurrentModel emitter.hostLabel emitter.project publication state

def run (emitter : HeartbeatEmitter) (steps : List Step) (state : State) : State :=
  steps.foldl (step emitter) state

/-- The row of the worker. -/
def row? (emitter : HeartbeatEmitter) (table : HeartbeatTable) : Option HeartbeatRow :=
  table.rows.find? fun row => row.key = (emitter.hostLabel, emitter.queue, emitter.project)

/-! ### The row after an upsert -/

section Upserted

variable {emitter : HeartbeatEmitter} {state : State} {call : Upsert} {now : Time}
  {table : HeartbeatTable} {row : HeartbeatRow}

theorem find?_upsert (call : Upsert) (now : Time) (table : HeartbeatTable) :
    ((upsertWorkerHeartbeat call now table).rows.find? fun row => row.key = call.key) =
      some (((table.rows.find? fun row => row.key = call.key).map (call.updated now)).getD
        (call.inserted now)) := by
  unfold upsertWorkerHeartbeat
  rw [Table.find?_upsert, if_pos (by rfl)]

/-- Whether it was there or not, the row of the key advertises what the call passes. -/
theorem row?_upsert (now : Time) (table : HeartbeatTable)
    (own : call.key = (emitter.hostLabel, emitter.queue, emitter.project)) :
    ∃ row, row? emitter (upsertWorkerHeartbeat call now table) = some row ∧
      row.toCapacity = call.capacity ∧
      ∀ old, row? emitter table = some old → row = call.updated now old := by
  unfold row?
  rw [← own]
  refine ⟨_, find?_upsert call now table, ?_⟩
  cases stored : table.rows.find? fun row => row.key = call.key with
  | none => exact ⟨rfl, nofun⟩
  | some old =>
    refine ⟨rfl, ?_⟩
    rintro _ ⟨⟩
    rfl

/-- In the columns that the sweeps and gates read, the upsert is the heartbeat of the system. -/
theorem upsert_beats {db after : Db} (same : db.heartbeats.Perm (table.rows.map HeartbeatRow.worker))
    (done : beat (call.inserted db.clock).worker db = .ok ((), after)) :
    after.heartbeats.Perm
      ((upsertWorkerHeartbeat call db.clock table).rows.map HeartbeatRow.worker) := by
  cases done
  have apart : (db.heartbeats.filter fun other => !(other.hostLabel == call.hostLabel &&
      other.queue == call.queue && other.project == call.project)).Perm
        ((table.rows.filter fun row => row.key ≠ call.key).map HeartbeatRow.worker) := by
    refine (same.filter _).trans (List.Perm.of_eq ?_)
    rw [List.filter_map]
    congr 1
    apply List.filter_congr
    intro row _
    rw [Bool.eq_iff_iff]
    simp [HeartbeatRow.worker, HeartbeatRow.key, Upsert.key, or_assoc]
  have fresh : (((table.rows.find? fun row => row.key = call.key).map
      (call.updated db.clock)).getD (call.inserted db.clock)).worker =
        { (call.inserted db.clock).worker with
          lastSeen := db.clock, lastFlaggedDeadAt := none } := by
    cases found : table.rows.find? fun row => row.key = call.key with
    | none => rfl
    | some old =>
      have own : old.key = call.key := by simpa using List.find?_some found
      simp only [HeartbeatRow.key, Upsert.key, Prod.mk.injEq] at own
      obtain ⟨host, queue, project⟩ := own
      simp [HeartbeatRow.worker, Upsert.updated, Upsert.inserted, host, queue, project]
  have landed : (upsertWorkerHeartbeat call db.clock table).rows.Perm
      (table.rows.filter (fun row => row.key ≠ call.key) ++
        [((table.rows.find? fun row => row.key = call.key).map (call.updated db.clock)).getD
          (call.inserted db.clock)]) := Table.upsert_perm
  refine List.Perm.trans ?_ (landed.map HeartbeatRow.worker).symm
  rw [List.map_append, List.map_singleton, fresh]
  exact apart.append (.refl _)

end Upserted

/-! ### The frame -/

section Frame

variable {emitter : HeartbeatEmitter} {state : State} {publication : Publication}
  {call : Upsert} {now : Time} {table : HeartbeatTable}

/-- What the row advertises is what the last `emit_once` has written. -/
def Shown (emitter : HeartbeatEmitter) (state : State) : Prop :=
  ∀ capacity, state.recent = some capacity →
    ∃ row, row? emitter state.table = some row ∧ row.toCapacity = capacity

/-- Of every row, only the slot, `last_seen` and the dead flag have changed. -/
def SlotOnly (before after : HeartbeatTable) : Prop :=
  ∀ row ∈ before.rows, ∃ model seen flagged,
    { row with currentModel := model, lastSeen := seen, lastFlaggedDeadAt := flagged } ∈ after.rows

/-- After the step the row advertises what was emitted last, and a publication has
changed no more than the slot. -/
def Framed (emitter : HeartbeatEmitter) (state : State) (taken : Step) : Prop :=
  Shown emitter (step emitter state taken) ∧
    ∀ publication, taken = .publish publication →
      SlotOnly state.table (step emitter state taken).table

/-- A publication that writes finds no row, or one that advertises a PAR of one, the known
ids of that moment, ollama alone, no VRAM and no model that fits. -/
def Harmless (emitter : HeartbeatEmitter) (state : State) (taken : Step) : Prop :=
  ∀ publication, taken = .publish publication → publication.writes = true →
    ∀ row, row? emitter state.table = some row →
      row.toCapacity = {
        concurrency := 1
        knownModels := publication.registry.knownIds
        llmServersAvailable := ["ollama"]
        vramTotalMb := none
        fitsModels := [] }

theorem SlotOnly.refl (table : HeartbeatTable) : SlotOnly table table :=
  fun row member => ⟨row.currentModel, row.lastSeen, row.lastFlaggedDeadAt, member⟩

/-- An upsert of what the row advertises already changes only the slot. -/
theorem slotOnly_upsert (same : ∀ row, (table.rows.find? fun row => row.key = call.key) = some row →
    row.toCapacity = call.capacity) : SlotOnly table (upsertWorkerHeartbeat call now table) := by
  intro row member
  by_cases own : row.key = call.key
  · have found : (table.rows.find? fun row => row.key = call.key) = some row := by
      rw [← own]
      exact Table.find?_of_mem member
    refine ⟨(call.updated now row).currentModel, now, none, ?_⟩
    have landed := List.mem_of_find?_eq_some (find?_upsert call now table)
    rw [found] at landed
    simpa [Upsert.updated, ← same row found] using landed
  · exact ⟨row.currentModel, row.lastSeen, row.lastFlaggedDeadAt,
      (Table.mem_upsert_of_ne own).mpr member⟩

theorem publish_idle (idle : publication.writes = false) :
    step emitter state (.publish publication) = state := by
  simp only [step, publishCurrentModel]
  cases disabled : publication.disabled with
  | true => rfl
  | false =>
    cases raised : publication.raised with
    | some error => rfl
    | none => simp [Publication.writes, disabled, raised] at idle

theorem publish_writes (writes : publication.writes = true) :
    step emitter state (.publish publication) =
      { state with
        table := upsertWorkerHeartbeat (publication.call emitter.hostLabel emitter.project)
          publication.now state.table } := by
  simp only [Publication.writes, Bool.and_eq_true, Bool.not_eq_true',
    Option.isNone_iff_eq_none] at writes
  simp [step, publishCurrentModel, writes.1, writes.2]

theorem shown_emit (shown : Shown emitter state) (tick : Tick) :
    Shown emitter (step emitter state (.emit tick)) := by
  simp only [step, emitOnce]
  cases tick.raised with
  | some error => exact shown
  | none =>
    intro capacity recent
    cases recent
    have own : (emitter.call (emitter.vramTotalMb state.probed tick).1 tick).key =
        (emitter.hostLabel, emitter.queue, emitter.project) := rfl
    obtain ⟨row, found, advertised, -⟩ := row?_upsert tick.now state.table own
    exact ⟨row, found, advertised⟩

variable (gpu : emitter.queue = "gpu")

include gpu

theorem framed_of_harmless {taken : Step} (shown : Shown emitter state)
    (harmless : Harmless emitter state taken) : Framed emitter state taken := by
  cases taken with
  | emit tick => exact ⟨shown_emit shown tick, nofun⟩
  | publish publication =>
    cases writes : publication.writes with
    | false =>
      unfold Framed
      rw [publish_idle writes]
      exact ⟨shown, fun _ _ => .refl _⟩
    | true =>
      have own : (publication.call emitter.hostLabel emitter.project).key =
          (emitter.hostLabel, emitter.queue, emitter.project) := by rw [gpu]; rfl
      have kept := harmless publication rfl writes
      unfold Framed
      rw [publish_writes writes]
      constructor
      · intro capacity recent
        obtain ⟨old, before, rfl⟩ := shown capacity recent
        obtain ⟨row, found, advertised, -⟩ := row?_upsert publication.now state.table own
        exact ⟨row, found, advertised.trans (kept old before).symm⟩
      · rintro _ -
        refine slotOnly_upsert fun row found => ?_
        rw [own] at found
        exact kept row found

theorem harmless_of_framed {taken : Step} (framed : Framed emitter state taken) :
    Harmless emitter state taken := by
  rintro publication rfl writes row before
  have own : (publication.call emitter.hostLabel emitter.project).key =
      (emitter.hostLabel, emitter.queue, emitter.project) := by rw [gpu]; rfl
  obtain ⟨model, seen, flagged, landed⟩ :=
    framed.2 publication rfl row (List.mem_of_find?_eq_some before)
  have mine : row.key = (emitter.hostLabel, emitter.queue, emitter.project) := by
    simpa using List.find?_some before
  rw [publish_writes writes] at landed
  have found := Table.find?_of_mem landed
  obtain ⟨last, shows, advertised, -⟩ := row?_upsert publication.now state.table own
  have same := (mine ▸ found).symm.trans shows
  cases same
  exact advertised

omit gpu in
theorem run_append (early late : List Step) :
    run emitter (early ++ late) state = run emitter late (run emitter early state) :=
  List.foldl_append

/-- A whole run whose publications are all harmless. -/
theorem shown_run {steps : List Step} (shown : Shown emitter state)
    (harmless : ∀ early taken late, steps = early ++ taken :: late →
      Harmless emitter (run emitter early state) taken) :
    Shown emitter (run emitter steps state) := by
  induction steps using List.reverseRecOn with
  | nil => exact shown
  | append_singleton steps taken ih =>
    have before := ih fun early other late split =>
      harmless early other (late ++ [taken]) (by simp [split])
    rw [run_append]
    exact (framed_of_harmless gpu before (harmless steps taken [] rfl)).1

/-- **The heartbeat frame.** -/
theorem heartbeat_frame (table : HeartbeatTable) (steps : List Step) :
    (∀ early taken late, steps = early ++ taken :: late →
        Framed emitter (run emitter early { table := table }) taken) ↔
      ∀ early taken late, steps = early ++ taken :: late →
        Harmless emitter (run emitter early { table := table }) taken := by
  constructor
  · exact fun framed early taken late split =>
      harmless_of_framed gpu (framed early taken late split)
  · intro harmless early taken late split
    refine framed_of_harmless gpu (shown_run gpu nofun ?_) (harmless early taken late split)
    intro early' taken' late' split'
    exact harmless early' taken' (late' ++ taken :: late) (by simp [split, split'])

end Frame

end Heartbeats

/-! ### A sample -/

open Heartbeats (Framed row? run)

/-- A machine of 24 GB under a PAR of four, with a vLLM sidecar. -/
def Sample.gpuEmitter : HeartbeatEmitter where
  queue := "gpu"
  hostLabel := "w"
  project := ""
  hasModelCache := true
  hasConcurrencyFn := true

def Sample.sdxl : ModelRegistry where
  specs := [⟨"sdxl", 8⟩]
  distinct := by decide

def Sample.tick : Tick where
  now := 0
  registry := Sample.sdxl
  probe := .ok (some 24576)
  parallelism := .ok 4
  llmServers := ["ollama", "vllm"]

/-- The emitter has ticked, and the cache is in the middle of a swap. -/
def Sample.swap : Publication where
  now := 1
  modelId := none
  registry := Sample.sdxl

theorem swap_drops_capacity : ¬ ∀ early taken late,
    [.emit Sample.tick, .publish Sample.swap] = early ++ taken :: late →
      Framed Sample.gpuEmitter (run Sample.gpuEmitter early { table := .empty }) taken := by
  intro framed
  obtain ⟨row, found, shown⟩ := (framed [.emit Sample.tick] _ [] rfl).1 _ rfl
  have advertised : (row? Sample.gpuEmitter (run Sample.gpuEmitter
      [.emit Sample.tick, .publish Sample.swap] { table := .empty }).table).map
        (fun row => row.concurrency) = some 1 := by decide +kernel
  have emitted : row.concurrency = 4 := by rw [shown]; decide +kernel
  rw [show row? Sample.gpuEmitter (run Sample.gpuEmitter
      [.emit Sample.tick, .publish Sample.swap] { table := .empty }).table = some row from found,
    Option.map_some, emitted] at advertised
  exact absurd advertised (by decide)

/-- Without models, on a machine whose VRAM is unknown, under a PAR of one. -/
def Sample.bareTick : Tick where
  now := 0
  registry := ⟨[], by decide⟩

def Sample.bareSwap : Publication where
  now := 1
  modelId := none
  registry := ⟨[], by decide⟩

theorem bare_swap_framed : Sample.bareSwap.writes = true ∧ ∀ early taken late,
    [.emit Sample.bareTick, .publish Sample.bareSwap] = early ++ taken :: late →
      Framed Sample.gpuEmitter (run Sample.gpuEmitter early { table := .empty }) taken := by
  refine ⟨rfl, (Heartbeats.heartbeat_frame rfl _ _).mpr ?_⟩
  rintro early taken late split publication rfl writes row found
  rcases early with _ | ⟨first, _ | ⟨second, early⟩⟩
  · cases split
  · cases split
    have bare : ((row? Sample.gpuEmitter (run Sample.gpuEmitter [.emit Sample.bareTick]
        { table := .empty }).table).all fun row => row.toCapacity = {
          concurrency := 1
          knownModels := Sample.bareSwap.registry.knownIds
          llmServersAvailable := ["ollama"]
          vramTotalMb := none
          fitsModels := [] }) = true := by decide +kernel
    rw [found] at bare
    simpa using bare
  · simp at split

end QueueWorkflows
