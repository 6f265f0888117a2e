import Mathlib.Algebra.Order.Field.Rat
import Mathlib.Algebra.Order.Floor.Ring
import Mathlib.Data.List.Infix
import Mathlib.Data.Rat.Floor
import Mathlib.Tactic.Linarith
import QueueWorkflows.Backend.Tenants
import QueueWorkflows.Base.Keyed

/-! The workers that are live and the operators' controls, as each adapter answers for them. The
clock and the windows of liveness are in fractions of a second. -/

namespace QueueWorkflows.Backend

/-- A heartbeat, and what the clock reads at it. -/
structure Beat where
  host : String
  queue : String
  currentModel : Option String
  staleAfterS : ℚ
  seen : ℚ
deriving DecidableEq

/-- What `workers` returns of a heartbeat. -/
structure LiveWorker where
  host : String
  queue : String
  currentModel : Option String
  lastSeen : ℚ
deriving DecidableEq

def Beat.row (beat : Beat) : LiveWorker where
  host := beat.host
  queue := beat.queue
  currentModel := beat.currentModel
  lastSeen := beat.seen

/-- The calls that write, and a pass of MongoDB's TTL monitor. -/
inductive RegistryMove where
  | heartbeat (beat : Beat)
  | setControl (control : Control)
  | sweep (now : ℚ)

/-! ### The adapters -/

namespace Postgres

structure Registry where
  workers : List (Scoped LiveWorker) := []
  server : Server := {}

def Registry.step (nameSpace : String) (registry : Registry) : RegistryMove → Registry
  | .heartbeat beat => { registry with
      workers := upsert (fun other => other.nameSpace == nameSpace &&
          other.row.host == beat.host && other.row.queue == beat.queue)
        ⟨nameSpace, beat.row⟩ registry.workers }
  | .setControl control => { registry with
      server := setControl nameSpace control registry.server }
  | .sweep _ => registry

/-- The heartbeats of the last 60 seconds, whatever they asked for. -/
def Registry.live (nameSpace : String) (registry : Registry) (queue : String) (now : ℚ) :
    List LiveWorker :=
  (registry.workers.filter fun other => other.nameSpace == nameSpace &&
    other.row.queue == queue && decide (now - 60 < other.row.lastSeen)).map Scoped.row

def registryAfter (nameSpace : String) (run : List RegistryMove) : Registry :=
  run.foldl (Registry.step nameSpace) {}

end Postgres

namespace Mongo

structure Registry where
  workers : List LiveWorker := []
  database : Database := {}

/-- `f"{queue}:{host}"`. -/
def workerId (host queue : String) : String := queue ++ ":" ++ host

def Registry.step (nameSpace : String) (registry : Registry) : RegistryMove → Registry
  | .heartbeat beat => { registry with
      workers := upsert (fun other => workerId other.host other.queue ==
        workerId beat.host beat.queue) beat.row registry.workers }
  | .setControl control => { registry with
      database := registry.database.call nameSpace (.setControl control) }
  -- `create_index("last_seen", expireAfterSeconds=60)`.
  | .sweep now => { registry with
      workers := registry.workers.filter fun row => !decide (row.lastSeen + 60 ≤ now) }

def Registry.live (registry : Registry) (queue : String) : List LiveWorker :=
  registry.workers.filter fun row => row.queue == queue

def Registry.desiredState (registry : Registry) (host queue : String) : String :=
  Control.state (registry.database.controls.find? fun control =>
    control.host == host && control.queue == queue)

def registryAfter (nameSpace : String) (run : List RegistryMove) : Registry :=
  run.foldl (Registry.step nameSpace) {}

end Mongo

namespace Redis

/-- A heartbeat's hash, with the time at which the key expires. -/
structure LiveHash where
  key : String
  row : LiveWorker
  expiresAt : ℚ
deriving DecidableEq

structure Registry where
  workers : List LiveHash := []
  space : Keyspace := {}

/-- Python's `int`. -/
def truncated (value : ℚ) : Int := if 0 ≤ value then ⌊value⌋ else ⌈value⌉

def ttl (staleAfterS : ℚ) : Int := max 1 (truncated staleAfterS)

def workerKey (nameSpace host queue : String) : String :=
  Key.text (keysOf nameSpace) (.worker queue host)

def controlKey (nameSpace host queue : String) : String :=
  Key.text (keysOf nameSpace) (.control host queue)

def hashOf (nameSpace : String) (beat : Beat) : LiveHash where
  key := workerKey nameSpace beat.host beat.queue
  row := { beat.row with currentModel := nonEmpty beat.currentModel }
  expiresAt := beat.seen + ttl beat.staleAfterS

def Registry.step (nameSpace : String) (registry : Registry) : RegistryMove → Registry
  | .heartbeat beat => { registry with
      workers := upsert (fun other => other.key == workerKey nameSpace beat.host beat.queue)
        (hashOf nameSpace beat) registry.workers }
  | .setControl control => { registry with
      space := setControl (keysOf nameSpace) control registry.space }
  | .sweep _ => registry

/-- `hgetall`: nothing, once the key has expired. -/
def Registry.hgetall (registry : Registry) (now : ℚ) (key : String) : Option LiveWorker :=
  (registry.workers.find? fun hash => hash.key == key && decide (now < hash.expiresAt)).map
    LiveHash.row

/-- `scan_iter` returns every key that matches, in any order and perhaps more than once. -/
def Registry.Scans (nameSpace : String) (registry : Registry) (queue : String) (now : ℚ)
    (scan : List String) : Prop :=
  ∀ key, key ∈ scan ↔ (registry.hgetall now key).isSome ∧
    globs (workersPattern (keysOf nameSpace) queue) key

def Registry.live (registry : Registry) (now : ℚ) (scan : List String) : List LiveWorker :=
  scan.filterMap (registry.hgetall now)

def registryAfter (nameSpace : String) (run : List RegistryMove) : Registry :=
  run.foldl (Registry.step nameSpace) {}

end Redis

/-! ### What the answers ought to be -/

/-- The heartbeats of a run, and which of them the TTL monitor takes away. -/
def beats (swept : ℚ → Beat → Bool) (run : List RegistryMove) : List (Keyed.Move Beat) :=
  run.filterMap fun
    | .heartbeat beat => some (.write beat)
    | .setControl _ => none
    | .sweep now => some (.remove (swept now))

def controls (run : List RegistryMove) : List (Keyed.Move Control) :=
  run.filterMap fun
    | .setControl control => some (.write control)
    | .heartbeat _ | .sweep _ => none

def never (_ : ℚ) (_ : Beat) : Bool := false

/-- The latest heartbeat of a host on a queue. -/
def latest (run : List RegistryMove) (host queue : String) : Option Beat :=
  Keyed.last (fun beat => beat.host == host && beat.queue == queue) (beats never run)

/-- The last control of a host on a queue. -/
def lastControl (run : List RegistryMove) (host queue : String) : Option Control :=
  Keyed.last (fun control => control.host == host && control.queue == queue) (controls run)

def Beat.Fresh (now : ℚ) (beat : Beat) : Prop := now - beat.seen < beat.staleAfterS

/-- The hosts are those whose latest heartbeat on the queue is fresh, each once. -/
def Right (run : List RegistryMove) (queue : String) (now : ℚ) (workers : List LiveWorker) : Prop :=
  (workers.map LiveWorker.host).Nodup ∧
    ∀ host, host ∈ workers.map LiveWorker.host ↔
      ∃ beat, latest run host queue = some beat ∧ beat.Fresh now

/-! ### The rows of a run -/

section Rows

variable {nameSpace host queue : String} {run : List RegistryMove} {beat : Beat} {now : ℚ}

/-- The rows of an adapter are images of what is written, kept under a key of theirs. -/
theorem upsert_map {α ρ κ : Type} [DecidableEq κ] {key : α → κ} (field : ρ → κ) (image : α → ρ)
    {clashes : ρ → Bool} {row : α} {rows : List α} (keyed : ∀ row, field (image row) = key row)
    (same : ∀ other, clashes other = true ↔ field other = field (image row)) :
    upsert clashes (image row) (rows.map image) = (Keyed.put key row rows).map image := by
  have equal : clashes = fun other => decide (field other = field (image row)) := by
    funext other
    rw [Bool.eq_iff_iff, same, decide_eq_true_eq]
  rw [equal, ← Keyed.map_put keyed, upsert, Keyed.put]
  simp only [decide_eq_true_eq]

@[simp] theorem beats_heartbeat (swept : ℚ → Beat → Bool) :
    beats swept (run ++ [.heartbeat beat]) = beats swept run ++ [.write beat] := by
  simp [beats]

@[simp] theorem beats_setControl (swept : ℚ → Beat → Bool) (control : Control) :
    beats swept (run ++ [.setControl control]) = beats swept run := by
  simp [beats]

@[simp] theorem beats_sweep (swept : ℚ → Beat → Bool) :
    beats swept (run ++ [.sweep now]) = beats swept run ++ [.remove (swept now)] := by
  simp [beats]

@[simp] theorem controls_heartbeat : controls (run ++ [.heartbeat beat]) = controls run := by
  simp [controls]

@[simp] theorem controls_setControl (control : Control) :
    controls (run ++ [.setControl control]) = controls run ++ [.write control] := by
  simp [controls]

@[simp] theorem controls_sweep : controls (run ++ [.sweep now]) = controls run := by
  simp [controls]

theorem filter_never (rows : List Beat) : (rows.filter fun beat => !never now beat) = rows := by
  simp [never]

theorem write_mem_beats {swept : ℚ → Beat → Bool} (written : .write beat ∈ beats swept run) :
    .heartbeat beat ∈ run := by
  obtain ⟨move, listed, same⟩ := List.mem_filterMap.mp written
  cases move with
  | heartbeat other =>
    cases same
    exact listed
  | setControl control => cases same
  | sweep now => cases same

theorem write_mem_controls {control : Control} (written : .write control ∈ controls run) :
    .setControl control ∈ run := by
  obtain ⟨move, listed, same⟩ := List.mem_filterMap.mp written
  cases move with
  | setControl other =>
    cases same
    exact listed
  | heartbeat beat => cases same
  | sweep now => cases same

/-- The heartbeats of a run that share a key are of one host on one queue. -/
def Separate {κ : Type} (key : String → String → κ) (run : List RegistryMove) : Prop :=
  ∀ first second, .heartbeat first ∈ run → .heartbeat second ∈ run →
    key first.host first.queue = key second.host second.queue →
      first.host = second.host ∧ first.queue = second.queue

/-- The heartbeats that are kept are the last ones, each of its host on its queue. -/
theorem mem_rowsAfter_beats {κ : Type} [DecidableEq κ] {key : String → String → κ}
    {swept : ℚ → Beat → Bool} (separate : Separate key run) :
    beat ∈ Keyed.rowsAfter (fun beat => key beat.host beat.queue) (beats swept run) ↔
      Keyed.last (fun other => other.host == beat.host && other.queue == beat.queue)
        (beats swept run) = some beat := by
  have same (beaten : .heartbeat beat ∈ run) :
      Keyed.last (fun other => key other.host other.queue = key beat.host beat.queue)
          (beats swept run) =
        Keyed.last (fun other => other.host == beat.host && other.queue == beat.queue)
          (beats swept run) := by
    apply Keyed.last_congr
    intro other written
    rw [Bool.eq_iff_iff]
    simp only [decide_eq_true_eq, beq_iff_eq, Bool.and_eq_true]
    constructor
    · exact separate other beat (write_mem_beats written) beaten
    · rintro ⟨host, queue⟩
      rw [host, queue]
  rw [Keyed.mem_rowsAfter]
  constructor
  · intro kept
    rwa [← same (write_mem_beats (Keyed.last_some kept).2)]
  · intro kept
    rwa [same (write_mem_beats (Keyed.last_some kept).2)]

/-- A heartbeat that has not been swept is still the latest. -/
theorem latest_of_kept {swept : ℚ → Beat → Bool} {is : Beat → Bool}
    (kept : Keyed.last is (beats swept run) = some beat) :
    Keyed.last is (beats never run) = some beat := by
  induction run using List.reverseRecOn with
  | nil => exact kept
  | append_singleton run move ih =>
    cases move with
    | heartbeat other =>
      rw [beats_heartbeat, Keyed.last_write] at kept ⊢
      split
      · rename_i kind
        rwa [if_pos kind] at kept
      · rename_i other
        rw [if_neg other] at kept
        exact ih kept
    | setControl control =>
      rw [beats_setControl] at kept ⊢
      exact ih kept
    | sweep now =>
      rw [beats_sweep, Keyed.last_remove] at kept ⊢
      exact Option.filter_eq_some_iff.mpr ⟨ih (Option.filter_eq_some_iff.mp kept).1, rfl⟩

/-- An adapter that lists some of the latest heartbeats is right if it lists the fresh ones. -/
theorem right_iff {workers : List LiveWorker} {listed : Beat → Prop}
    (once : (workers.map LiveWorker.host).Nodup)
    (exactly : ∀ host, host ∈ workers.map LiveWorker.host ↔
      ∃ beat, latest run host queue = some beat ∧ listed beat) :
    Right run queue now workers ↔
      ∀ host beat, latest run host queue = some beat → (listed beat ↔ beat.Fresh now) := by
  simp only [Right, once, true_and, exactly]
  constructor
  · intro right host beat found
    have one : ∀ property : Beat → Prop,
        (∃ beat, latest run host queue = some beat ∧ property beat) ↔ property beat := by
      intro property
      rw [found]
      simp
    rw [← one listed, ← one (Beat.Fresh now)]
    exact right host
  · intro same host
    constructor
    · rintro ⟨beat, found, listed⟩
      exact ⟨beat, found, (same host beat found).mp listed⟩
    · rintro ⟨beat, found, fresh⟩
      exact ⟨beat, found, (same host beat found).mpr fresh⟩

/-- Among rows that are kept, one queue has every host once. -/
theorem hosts_nodup {ρ : Type} {rows : List Beat} {image : Beat → ρ} {host : ρ → String}
    {listed : ρ → Bool} (found : String → Option Beat) (distinct : rows.Nodup)
    (same : ∀ beat, host (image beat) = beat.host)
    (kept : ∀ beat ∈ rows, listed (image beat) = true → found beat.host = some beat) :
    (((rows.map image).filter listed).map host).Nodup := by
  rw [List.filter_map, List.map_map]
  apply List.Nodup.map_on
  · intro first member second among equal
    obtain ⟨present, first_listed⟩ := List.mem_filter.mp member
    obtain ⟨stored, second_listed⟩ := List.mem_filter.mp among
    simp only [Function.comp_apply, same] at equal
    have one := kept first present first_listed
    rw [equal, kept second stored second_listed] at one
    exact (Option.some.inj one).symm
  · exact distinct.filter _

end Rows

/-! ### Postgres -/

namespace Postgres

variable {nameSpace : String} {run : List RegistryMove} {queue : String} {now : ℚ}

theorem registryAfter_snoc (move : RegistryMove) : registryAfter nameSpace (run ++ [move]) =
    (registryAfter nameSpace run).step nameSpace move := by
  simp [registryAfter]

theorem workers_eq (run : List RegistryMove) : (registryAfter nameSpace run).workers =
    (Keyed.rowsAfter (fun beat => (nameSpace, beat.host, beat.queue)) (beats never run)).map
      fun beat => ⟨nameSpace, beat.row⟩ := by
  induction run using List.reverseRecOn with
  | nil => rfl
  | append_singleton run move ih =>
    rw [registryAfter_snoc]
    cases move with
    | heartbeat beat =>
      rw [Registry.step, beats_heartbeat, Keyed.rowsAfter_snoc, Keyed.step, ih]
      apply upsert_map fun other => (other.nameSpace, other.row.host, other.row.queue)
      · intro beat
        rfl
      · intro other
        simp [Beat.row, and_assoc]
    | setControl control => rw [beats_setControl, ← ih, Registry.step]
    | sweep now =>
      rw [beats_sweep, Keyed.rowsAfter_snoc, Keyed.step, filter_never, ← ih, Registry.step]

theorem controls_eq (run : List RegistryMove) : (registryAfter nameSpace run).server.controls =
    (Keyed.rowsAfter (fun control => (nameSpace, control.host, control.queue)) (controls run)).map
      fun control => ⟨nameSpace, control⟩ := by
  induction run using List.reverseRecOn with
  | nil => rfl
  | append_singleton run move ih =>
    rw [registryAfter_snoc]
    cases move with
    | heartbeat beat => rw [controls_heartbeat, ← ih, Registry.step]
    | setControl control =>
      rw [Registry.step, controls_setControl, Keyed.rowsAfter_snoc, Keyed.step, setControl, ih]
      apply upsert_map fun other => (other.nameSpace, other.row.host, other.row.queue)
      · intro control
        rfl
      · intro other
        simp [and_assoc]
    | sweep now => rw [controls_sweep, ← ih, Registry.step]

theorem desiredState_right (host queue : String) :
    desiredState nameSpace (registryAfter nameSpace run).server host queue =
      Control.state (lastControl run host queue) := by
  rw [desiredState, controls_eq, List.find?_map, Option.map_map]
  have same : ((fun other : Scoped Control => other.nameSpace == nameSpace &&
        other.row.host == host && other.row.queue == queue) ∘ fun control => ⟨nameSpace, control⟩) =
      fun control => decide ((nameSpace, control.host, control.queue) =
        (nameSpace, host, queue)) := by
    funext control
    rw [Bool.eq_iff_iff]
    simp
  have named : (fun control : Control => decide ((nameSpace, control.host, control.queue) =
      (nameSpace, host, queue))) = fun control => control.host == host && control.queue == queue := by
    funext control
    rw [Bool.eq_iff_iff]
    simp
  rw [same, Keyed.find_rowsAfter, named]
  exact congrArg Control.state Option.map_id'

/-- Its window is of 60 seconds. -/
theorem live_right (queue : String) (now : ℚ) :
    Right run queue now ((registryAfter nameSpace run).live nameSpace queue now) ↔
      ∀ host beat, latest run host queue = some beat → (now - beat.seen < 60 ↔ beat.Fresh now) := by
  have separate : Separate (fun host queue => (nameSpace, host, queue)) run := by
    intro first second _ _ same
    exact ⟨congrArg (·.2.1) same, congrArg (·.2.2) same⟩
  have kept (beat : Beat) : beat ∈ Keyed.rowsAfter
      (fun beat => (nameSpace, beat.host, beat.queue)) (beats never run) ↔
        latest run beat.host beat.queue = some beat :=
    mem_rowsAfter_beats separate
  apply right_iff
  · rw [Registry.live, List.map_map, workers_eq]
    apply hosts_nodup fun host => latest run host queue
    · exact List.Nodup.of_map _ (Keyed.rowsAfter_keys _)
    · intro beat
      rfl
    · intro beat present listed
      simp only [Beat.row, beq_self_eq_true, Bool.true_and, Bool.and_eq_true, beq_iff_eq] at listed
      rw [← listed.1]
      exact (kept beat).mp present
  · intro host
    simp only [Registry.live, workers_eq, List.map_map, List.mem_map, List.mem_filter,
      Function.comp_apply, Bool.and_eq_true, beq_iff_eq, decide_eq_true_eq]
    constructor
    · rintro ⟨_, ⟨⟨beat, present, rfl⟩, ⟨-, rfl⟩, inside⟩, rfl⟩
      exact ⟨beat, (kept beat).mp present, by linarith [show now - 60 < beat.seen from inside]⟩
    · rintro ⟨beat, found, inside⟩
      have own := (Keyed.last_some found).1
      simp only [Bool.and_eq_true, beq_iff_eq] at own
      obtain ⟨rfl, rfl⟩ := own
      exact ⟨_, ⟨⟨beat, (kept beat).mpr found, rfl⟩, ⟨rfl, rfl⟩,
        show now - 60 < beat.seen by linarith⟩, rfl⟩

end Postgres

/-! ### MongoDB -/

namespace Mongo

variable {nameSpace : String} {run : List RegistryMove} {queue : String} {now : ℚ}

def swept (now : ℚ) (beat : Beat) : Bool := decide (beat.seen + 60 ≤ now)

/-- The latest heartbeat of a host on a queue, unless the TTL monitor has come past it when it
was 60 seconds old. -/
def kept (run : List RegistryMove) (host queue : String) : Option Beat :=
  Keyed.last (fun beat => beat.host == host && beat.queue == queue) (beats swept run)

theorem registryAfter_snoc (move : RegistryMove) : registryAfter nameSpace (run ++ [move]) =
    (registryAfter nameSpace run).step nameSpace move := by
  simp [registryAfter]

theorem workers_eq (run : List RegistryMove) : (registryAfter nameSpace run).workers =
    (Keyed.rowsAfter (fun beat => workerId beat.host beat.queue) (beats swept run)).map
      Beat.row := by
  induction run using List.reverseRecOn with
  | nil => rfl
  | append_singleton run move ih =>
    rw [registryAfter_snoc]
    cases move with
    | heartbeat beat =>
      rw [Registry.step, beats_heartbeat, Keyed.rowsAfter_snoc, Keyed.step, ih]
      apply upsert_map fun other => workerId other.host other.queue
      · intro beat
        rfl
      · intro other
        exact beq_iff_eq
    | setControl control => rw [beats_setControl, ← ih, Registry.step]
    | sweep now =>
      rw [beats_sweep, Keyed.rowsAfter_snoc, Keyed.step, Registry.step, ih, List.filter_map]
      rfl

theorem controls_eq (run : List RegistryMove) :
    (registryAfter nameSpace run).database.controls =
      Keyed.rowsAfter (fun control => (control.host, control.queue)) (controls run) := by
  induction run using List.reverseRecOn with
  | nil => rfl
  | append_singleton run move ih =>
    rw [registryAfter_snoc]
    cases move with
    | heartbeat beat => rw [controls_heartbeat, ← ih, Registry.step]
    | setControl control =>
      rw [Registry.step, controls_setControl, Keyed.rowsAfter_snoc, Keyed.step, ← ih,
        ← List.map_id (Keyed.put _ _ _), ← upsert_map fun other => (other.host, other.queue)]
      · rw [List.map_id]
        rfl
      · intro control
        rfl
      · intro other
        simp
    | sweep now => rw [controls_sweep, ← ih, Registry.step]

theorem desiredState_right (host queue : String) :
    (registryAfter nameSpace run).desiredState host queue =
      Control.state (lastControl run host queue) := by
  have named : (fun control : Control => control.host == host && control.queue == queue) =
      fun control => decide ((control.host, control.queue) = (host, queue)) := by
    funext control
    rw [Bool.eq_iff_iff]
    simp
  rw [Registry.desiredState, controls_eq, lastControl, named, Keyed.find_rowsAfter]

/-- It lists what the TTL monitor has not taken away. -/
theorem live_right (separate : Separate workerId run) (queue : String) (now : ℚ) :
    Right run queue now ((registryAfter nameSpace run).live queue) ↔
      ∀ host beat, latest run host queue = some beat →
        (kept run beat.host beat.queue = some beat ↔ beat.Fresh now) := by
  have listed (beat : Beat) : beat ∈ Keyed.rowsAfter
      (fun beat => workerId beat.host beat.queue) (beats swept run) ↔
        kept run beat.host beat.queue = some beat :=
    mem_rowsAfter_beats separate
  apply right_iff
  · rw [Registry.live, workers_eq]
    apply hosts_nodup fun host => kept run host queue
    · exact List.Nodup.of_map _ (Keyed.rowsAfter_keys _)
    · intro beat
      rfl
    · intro beat present own
      simp only [Beat.row, beq_iff_eq] at own
      rw [← own]
      exact (listed beat).mp present
  · intro host
    simp only [Registry.live, workers_eq, List.mem_map, List.mem_filter, beq_iff_eq]
    constructor
    · rintro ⟨_, ⟨⟨beat, present, rfl⟩, rfl⟩, rfl⟩
      have found := (listed beat).mp present
      exact ⟨beat, latest_of_kept found, found⟩
    · rintro ⟨beat, found, stays⟩
      have own := (Keyed.last_some found).1
      simp only [Bool.and_eq_true, beq_iff_eq] at own
      exact ⟨_, ⟨⟨beat, (listed beat).mpr stays, rfl⟩, own.2⟩, own.1⟩

end Mongo

/-! ### Redis -/

namespace Redis

variable {nameSpace : String} {run : List RegistryMove} {queue : String} {now : ℚ}

theorem registryAfter_snoc (move : RegistryMove) : registryAfter nameSpace (run ++ [move]) =
    (registryAfter nameSpace run).step nameSpace move := by
  simp [registryAfter]

theorem workers_eq (run : List RegistryMove) : (registryAfter nameSpace run).workers =
    (Keyed.rowsAfter (fun beat => workerKey nameSpace beat.host beat.queue) (beats never run)).map
      (hashOf nameSpace) := by
  induction run using List.reverseRecOn with
  | nil => rfl
  | append_singleton run move ih =>
    rw [registryAfter_snoc]
    cases move with
    | heartbeat beat =>
      rw [Registry.step, beats_heartbeat, Keyed.rowsAfter_snoc, Keyed.step, ih]
      apply upsert_map fun other => other.key
      · intro beat
        rfl
      · intro other
        exact beq_iff_eq
    | setControl control => rw [beats_setControl, ← ih, Registry.step]
    | sweep now =>
      rw [beats_sweep, Keyed.rowsAfter_snoc, Keyed.step, filter_never, ← ih, Registry.step]

theorem controls_eq (run : List RegistryMove) : (registryAfter nameSpace run).space.controls =
    (Keyed.rowsAfter (fun control => controlKey nameSpace control.host control.queue)
      (controls run)).map
        fun control => ⟨controlKey nameSpace control.host control.queue, control⟩ := by
  induction run using List.reverseRecOn with
  | nil => rfl
  | append_singleton run move ih =>
    rw [registryAfter_snoc]
    cases move with
    | heartbeat beat => rw [controls_heartbeat, ← ih, Registry.step]
    | setControl control =>
      rw [Registry.step, controls_setControl, Keyed.rowsAfter_snoc, Keyed.step, setControl, ih]
      apply upsert_map fun other => other.key
      · intro control
        rfl
      · intro other
        exact beq_iff_eq
    | sweep now => rw [controls_sweep, ← ih, Registry.step]

theorem desiredState_right (host queue : String)
    (own : ∀ control, .setControl control ∈ run →
      controlKey nameSpace control.host control.queue = controlKey nameSpace host queue →
        control.host = host ∧ control.queue = queue) :
    desiredState (keysOf nameSpace) (registryAfter nameSpace run).space host queue =
      Control.state (lastControl run host queue) := by
  have keyed : ((fun hash : ControlHash =>
        hash.key == Key.text (keysOf nameSpace) (.control host queue)) ∘
        fun control => ⟨controlKey nameSpace control.host control.queue, control⟩) =
      fun control => decide (controlKey nameSpace control.host control.queue =
        controlKey nameSpace host queue) := by
    funext control
    rw [Bool.eq_iff_iff, decide_eq_true_eq]
    exact beq_iff_eq
  have named : Keyed.last (fun control => decide (controlKey nameSpace control.host control.queue =
        controlKey nameSpace host queue)) (controls run) = lastControl run host queue := by
    apply Keyed.last_congr
    intro control written
    rw [Bool.eq_iff_iff]
    simp only [decide_eq_true_eq, Bool.and_eq_true, beq_iff_eq]
    constructor
    · exact own control (write_mem_controls written)
    · rintro ⟨rfl, rfl⟩
      rfl
  rw [desiredState, controls_eq, List.find?_map, Option.map_map, keyed, Keyed.find_rowsAfter, named]
  exact congrArg Control.state Option.map_id'

/-- The hash of a heartbeat has not expired. -/
def Alive (now : ℚ) (beat : Beat) : Prop := now < beat.seen + ttl beat.staleAfterS

theorem hgetall_some (separate : Separate (workerKey nameSpace) run) {key : String}
    {row : LiveWorker} : (registryAfter nameSpace run).hgetall now key = some row ↔
      ∃ beat, latest run beat.host beat.queue = some beat ∧ Alive now beat ∧
        workerKey nameSpace beat.host beat.queue = key ∧ (hashOf nameSpace beat).row = row := by
  have kept (beat : Beat) : beat ∈ Keyed.rowsAfter
      (fun beat => workerKey nameSpace beat.host beat.queue) (beats never run) ↔
        latest run beat.host beat.queue = some beat :=
    mem_rowsAfter_beats separate
  have held {hash : LiveHash} (found : ((registryAfter nameSpace run).workers.find? fun hash =>
      hash.key == key && decide (now < hash.expiresAt)) = some hash) :
      ∃ beat, latest run beat.host beat.queue = some beat ∧ Alive now beat ∧
        workerKey nameSpace beat.host beat.queue = key ∧ hashOf nameSpace beat = hash := by
    have present := List.mem_of_find?_eq_some found
    rw [workers_eq] at present
    obtain ⟨beat, among, rfl⟩ := List.mem_map.mp present
    have passes := List.find?_some found
    simp only [Bool.and_eq_true, beq_iff_eq, decide_eq_true_eq] at passes
    exact ⟨beat, (kept beat).mp among, passes.2, passes.1, rfl⟩
  unfold Registry.hgetall
  constructor
  · intro read
    obtain ⟨hash, found, rfl⟩ := Option.map_eq_some_iff.mp read
    obtain ⟨beat, last, alive, named, rfl⟩ := held found
    exact ⟨beat, last, alive, named, rfl⟩
  · rintro ⟨beat, last, alive, named, rfl⟩
    cases found : (registryAfter nameSpace run).workers.find? fun hash =>
        hash.key == key && decide (now < hash.expiresAt) with
    | none =>
      have present : hashOf nameSpace beat ∈ (registryAfter nameSpace run).workers := by
        rw [workers_eq]
        exact List.mem_map_of_mem ((kept beat).mpr last)
      have missed := List.find?_eq_none.mp found _ present
      have passes : ((hashOf nameSpace beat).key == key &&
          decide (now < (hashOf nameSpace beat).expiresAt)) = true := by
        simp only [Bool.and_eq_true, beq_iff_eq, decide_eq_true_eq]
        exact ⟨named, alive⟩
      exact absurd passes missed
    | some hash =>
      obtain ⟨other, latter, -, same, rfl⟩ := held found
      have written {beat : Beat} (last : latest run beat.host beat.queue = some beat) :=
        write_mem_beats (Keyed.last_some last).2
      obtain ⟨host, queue⟩ := separate other beat (written latter) (written last)
        (same.trans named.symm)
      rw [host, queue, last] at latter
      cases latter
      rfl

/-- The pattern of a queue matches those keys of live heartbeats that are of the queue. -/
def Exact (nameSpace : String) (run : List RegistryMove) (queue : String) (now : ℚ) : Prop :=
  ∀ beat, latest run beat.host beat.queue = some beat → Alive now beat →
    (globs (workersPattern (keysOf nameSpace) queue)
      (workerKey nameSpace beat.host beat.queue) = true ↔ beat.queue = queue)

/-- It lists what has not expired, if the scan finds the keys of the queue, each once. -/
theorem live_right {scan : List String} (separate : Separate (workerKey nameSpace) run)
    (exactly : Exact nameSpace run queue now)
    (scans : (registryAfter nameSpace run).Scans nameSpace queue now scan) (once : scan.Nodup) :
    Right run queue now ((registryAfter nameSpace run).live now scan) ↔
      ∀ host beat, latest run host queue = some beat → (Alive now beat ↔ beat.Fresh now) := by
  have read {key : String} {row : LiveWorker} (member : key ∈ scan)
      (found : (registryAfter nameSpace run).hgetall now key = some row) :
      ∃ beat, latest run beat.host queue = some beat ∧ Alive now beat ∧
        workerKey nameSpace beat.host queue = key ∧ row.host = beat.host := by
    obtain ⟨beat, last, alive, rfl, rfl⟩ := (hgetall_some separate).mp found
    obtain rfl := (exactly beat last alive).mp ((scans _).mp member).2
    exact ⟨beat, last, alive, rfl, rfl⟩
  apply right_iff
  · rw [Registry.live, List.Nodup, List.pairwise_map, List.pairwise_filterMap]
    apply List.Pairwise.imp_of_mem _ once
    intro key other member among different row found row' found' same
    obtain ⟨beat, last, -, rfl, host⟩ := read member found
    obtain ⟨beat', last', -, rfl, host'⟩ := read among found'
    rw [← host, ← host', same] at different
    exact different rfl
  · intro host
    simp only [Registry.live, List.mem_map, List.mem_filterMap]
    constructor
    · rintro ⟨row, ⟨key, member, found⟩, rfl⟩
      obtain ⟨beat, last, alive, -, same⟩ := read member found
      exact ⟨beat, same ▸ last, alive⟩
    · rintro ⟨beat, last, alive⟩
      have own := (Keyed.last_some last).1
      simp only [Bool.and_eq_true, beq_iff_eq] at own
      obtain ⟨rfl, rfl⟩ := own
      have found := (hgetall_some separate).mpr ⟨beat, last, alive, rfl, rfl⟩
      refine ⟨_, ⟨_, (scans _).mpr ⟨?_, (exactly beat last alive).mpr rfl⟩, found⟩, rfl⟩
      rw [found]
      rfl

end Redis

/-! ### Plain names -/

section Plain

variable {run : List RegistryMove} {nameSpace queue : String} {now : ℚ}
  {front other rest left : List Char}

/-- Names without a colon can be told from what follows the first one. -/
theorem colon_split (plain : ':' ∉ front) (clear : ':' ∉ other)
    (same : front ++ ':' :: rest = other ++ ':' :: left) : front = other ∧ rest = left := by
  induction front generalizing other with
  | nil =>
    cases other with
    | nil => exact ⟨rfl, (List.cons.inj same).2⟩
    | cons char other =>
      obtain ⟨rfl, -⟩ := List.cons.inj same
      exact absurd List.mem_cons_self clear
  | cons char front ih =>
    cases other with
    | nil =>
      obtain ⟨rfl, -⟩ := List.cons.inj same
      exact absurd List.mem_cons_self plain
    | cons char' other =>
      obtain ⟨rfl, behind⟩ := List.cons.inj same
      obtain ⟨rfl, rfl⟩ := ih (fun member => plain (List.mem_cons_of_mem _ member))
        (fun member => clear (List.mem_cons_of_mem _ member)) behind
      exact ⟨rfl, rfl⟩

theorem separate_workerId (plain : ∀ beat, .heartbeat beat ∈ run → ':' ∉ beat.queue.toList) :
    Separate Mongo.workerId run := by
  intro first second one two same
  have parts : first.queue.toList ++ ':' :: first.host.toList =
      second.queue.toList ++ ':' :: second.host.toList := by
    simpa [Mongo.workerId] using congrArg String.toList same
  obtain ⟨queues, hosts⟩ := colon_split (plain first one) (plain second two) parts
  exact ⟨String.toList_injective hosts, String.toList_injective queues⟩

namespace Redis

theorem workerKey_toList (nameSpace host queue : String) :
    (workerKey nameSpace host queue).toList =
      ((keysOf nameSpace).toList ++ "worker:".toList) ++ (queue.toList ++ ':' :: host.toList) := by
  simp [workerKey, Key.text, Key.suffix]

theorem separate_workerKey (plain : ∀ beat, .heartbeat beat ∈ run → ':' ∉ beat.queue.toList) :
    Separate (workerKey nameSpace) run := by
  intro first second one two same
  have chars := congrArg String.toList same
  rw [workerKey_toList, workerKey_toList] at chars
  obtain ⟨queues, hosts⟩ :=
    colon_split (plain first one) (plain second two) (List.append_cancel_left chars)
  exact ⟨String.toList_injective hosts, String.toList_injective queues⟩

/-- No character means anything but itself in a pattern. -/
def Literal (text : List Char) : Prop := ∀ char ∈ text, char ∉ ['*', '?', '[', '\\']

theorem literal_append : Literal (front ++ other) ↔ Literal front ∧ Literal other :=
  List.forall_mem_append

theorem globTokens_literal (literal : Literal front) :
    globTokens none (front ++ rest) = front.map .literal ++ globTokens none rest := by
  induction front with
  | nil => rfl
  | cons char front ih =>
    have self := literal char List.mem_cons_self
    simp only [List.mem_cons, List.not_mem_nil, or_false, not_or] at self
    have others := ih fun char member => literal char (List.mem_cons_of_mem _ member)
    rw [List.map_cons, List.cons_append, List.cons_append, ← others]
    obtain ⟨star, any, bracket, escape⟩ := self
    rw [globTokens]
    · exact star
    · exact any
    · exact fun _ same _ => bracket same
    · exact bracket
    · exact fun _ _ same _ => escape same

theorem matchTokens_literal {tokens : List Token} :
    matchTokens (front.map .literal ++ tokens) other = true ↔
      ∃ rest, other = front ++ rest ∧ matchTokens tokens rest = true := by
  induction front generalizing other with
  | nil => simp
  | cons char front ih =>
    cases other with
    | nil => simp [matchTokens]
    | cons head other =>
      simp only [List.map_cons, List.cons_append, matchTokens, Bool.and_eq_true, beq_iff_eq, ih,
        List.cons.injEq]
      constructor
      · rintro ⟨rfl, rest, rfl, matched⟩
        exact ⟨rest, ⟨rfl, rfl⟩, matched⟩
      · rintro ⟨rest, ⟨rfl, rfl⟩, matched⟩
        exact ⟨rfl, rest, rfl, matched⟩

/-- With plain names the pattern of a queue matches the keys of the queue. -/
theorem exact_of_plain (space : Literal nameSpace.toList) (literal : Literal queue.toList)
    (asked : ':' ∉ queue.toList)
    (plain : ∀ beat, .heartbeat beat ∈ run → ':' ∉ beat.queue.toList) :
    Exact nameSpace run queue now := by
  intro beat last _
  have clear := plain beat (write_mem_beats (Keyed.last_some last).2)
  have pattern : (workersPattern (keysOf nameSpace) queue).toList =
      ((keysOf nameSpace).toList ++ "worker:".toList ++ queue.toList ++ [':']) ++ ['*'] := by
    simp [workersPattern]
  have constant : Literal
      ((keysOf nameSpace).toList ++ "worker:".toList ++ queue.toList ++ [':']) := by
    have begins : Literal "qw:".toList := by simp [Literal]
    have worker : Literal "worker:".toList := by simp [Literal]
    have colon : Literal [':'] := by simp [Literal]
    simp only [keysOf, String.toList_append, literal_append]
    exact ⟨⟨⟨⟨⟨begins, space⟩, colon⟩, worker⟩, literal⟩, colon⟩
  have any (rest : List Char) : matchTokens (globTokens none ['*']) rest = true := by
    change rest.tails.any (matchTokens []) = true
    exact List.any_eq_true.mpr ⟨[], (List.mem_tails [] rest).mpr List.nil_suffix, rfl⟩
  rw [globs, pattern, globTokens_literal constant, matchTokens_literal, workerKey_toList]
  simp only [any, and_true, List.append_assoc, List.append_cancel_left_eq, List.singleton_append]
  constructor
  · rintro ⟨rest, same⟩
    exact String.toList_injective (colon_split clear asked same).1
  · rintro rfl
    exact ⟨_, rfl⟩

end Redis

end Plain

/-! ### All three adapters -/

/-- Controls answer for the last call, on Redis where their keys do not collide. The workers of
a queue are the ones that are live exactly where an adapter's window is the one asked for, on
MongoDB and Redis where the keys of heartbeats do not collide, and on Redis where the scan finds
the keys of the queue, each once. -/
theorem registries_right (nameSpace : String) (run : List RegistryMove) :
    ((∀ host queue,
        Postgres.desiredState nameSpace (Postgres.registryAfter nameSpace run).server host queue =
          Control.state (lastControl run host queue)) ∧
      ∀ queue now,
        Right run queue now ((Postgres.registryAfter nameSpace run).live nameSpace queue now) ↔
          ∀ host beat, latest run host queue = some beat →
            (now - beat.seen < 60 ↔ beat.Fresh now)) ∧
    ((∀ host queue, (Mongo.registryAfter nameSpace run).desiredState host queue =
        Control.state (lastControl run host queue)) ∧
      (Separate Mongo.workerId run → ∀ queue now,
        Right run queue now ((Mongo.registryAfter nameSpace run).live queue) ↔
          ∀ host beat, latest run host queue = some beat →
            (Mongo.kept run beat.host beat.queue = some beat ↔ beat.Fresh now))) ∧
    ((∀ host queue,
        (∀ control, .setControl control ∈ run →
          Redis.controlKey nameSpace control.host control.queue =
            Redis.controlKey nameSpace host queue →
          control.host = host ∧ control.queue = queue) →
        Redis.desiredState (Redis.keysOf nameSpace) (Redis.registryAfter nameSpace run).space
          host queue = Control.state (lastControl run host queue)) ∧
      (Separate (Redis.workerKey nameSpace) run → ∀ queue now scan,
        Redis.Exact nameSpace run queue now →
        (Redis.registryAfter nameSpace run).Scans nameSpace queue now scan → scan.Nodup →
        (Right run queue now ((Redis.registryAfter nameSpace run).live now scan) ↔
          ∀ host beat, latest run host queue = some beat →
            (Redis.Alive now beat ↔ beat.Fresh now)))) :=
  ⟨⟨Postgres.desiredState_right, Postgres.live_right⟩,
    ⟨Mongo.desiredState_right, Mongo.live_right⟩,
    ⟨Redis.desiredState_right, fun separate _ _ _ exactly scans once =>
      Redis.live_right separate exactly scans once⟩⟩

namespace Sample

def hostA : Beat := ⟨"hostA", "gpu", some "flux", 60, 30⟩

def hostB : Beat := ⟨"hostB", "gpu", none, 60, 0⟩

def hostAOnCpu : Beat := ⟨"hostA", "cpu", none, 60, 40⟩

/-- Two workers on one queue, of which one falls silent and is switched off, and one of them on
another queue as well. -/
def fleet : List RegistryMove :=
  [.heartbeat { hostA with currentModel := none, seen := 0 }, .heartbeat hostB,
    .setControl ⟨"hostB", "gpu", "off", "drain", some "operator", 10⟩, .heartbeat hostA,
    .heartbeat hostAOnCpu, .sweep 65]

theorem mem_fleet {beat : Beat} (written : .heartbeat beat ∈ fleet) :
    beat = { hostA with currentModel := none, seen := 0 } ∨ beat = hostB ∨ beat = hostA ∨
      beat = hostAOnCpu := by
  simpa [fleet] using written

theorem queue_of_fleet {beat : Beat} (written : .heartbeat beat ∈ fleet) :
    ':' ∉ beat.queue.toList := by
  rcases mem_fleet written with rfl | rfl | rfl | rfl <;> simp [hostA, hostB, hostAOnCpu]

/-- The heartbeats that no later one takes the place of. -/
theorem latest_fleet {host queue : String} {beat : Beat}
    (found : latest fleet host queue = some beat) :
    beat = hostA ∨ beat = hostB ∨ beat = hostAOnCpu := by
  obtain ⟨own, written⟩ := Keyed.last_some found
  rcases mem_fleet (write_mem_beats written) with rfl | rfl | rfl | rfl
  · simp only [Bool.and_eq_true, beq_iff_eq] at own
    obtain ⟨rfl, rfl⟩ := own
    have later : latest fleet "hostA" "gpu" = some hostA := by decide +kernel
    cases later.symm.trans found
  · exact .inr (.inl rfl)
  · exact .inl rfl
  · exact .inr (.inr rfl)

end Sample

/-- Each worker of the fleet asks for a minute: the silent one is left out on all three, and its
control is read on all three. -/
theorem fleet_right :
    (Right Sample.fleet "gpu" 70
        ((Postgres.registryAfter "default" Sample.fleet).live "default" "gpu" 70) ∧
      Postgres.desiredState "default" (Postgres.registryAfter "default" Sample.fleet).server
        "hostB" "gpu" = Control.state (lastControl Sample.fleet "hostB" "gpu")) ∧
    (Right Sample.fleet "gpu" 70 ((Mongo.registryAfter "default" Sample.fleet).live "gpu") ∧
      (Mongo.registryAfter "default" Sample.fleet).desiredState "hostB" "gpu" =
        Control.state (lastControl Sample.fleet "hostB" "gpu")) ∧
    (Right Sample.fleet "gpu" 70
        ((Redis.registryAfter "default" Sample.fleet).live 70 ["qw:default:worker:gpu:hostA"]) ∧
      Redis.desiredState (Redis.keysOf "default") (Redis.registryAfter "default" Sample.fleet).space
        "hostB" "gpu" = Control.state (lastControl Sample.fleet "hostB" "gpu")) := by
  obtain ⟨⟨postgres, pgLive⟩, ⟨mongo, mongoLive⟩, ⟨redis, redisLive⟩⟩ :=
    registries_right "default" Sample.fleet
  have plain (beat : Beat) (written : .heartbeat beat ∈ Sample.fleet) := Sample.queue_of_fleet written
  have separate : Separate (Redis.workerKey "default") Sample.fleet :=
    Redis.separate_workerKey plain
  have one_control (control : Control) (written : .setControl control ∈ Sample.fleet) :
      control.host = "hostB" ∧ control.queue = "gpu" := by
    obtain rfl : control = _ := by simpa [Sample.fleet] using written
    exact ⟨rfl, rfl⟩
  refine ⟨⟨(pgLive "gpu" 70).mpr ?_, postgres _ _⟩,
    ⟨(mongoLive (separate_workerId plain) "gpu" 70).mpr ?_, mongo _ _⟩,
    ⟨(redisLive separate "gpu" 70 _ ?_ ?_ (List.nodup_singleton _)).mpr ?_,
      redis _ _ fun control written _ => one_control control written⟩⟩
  · intro host beat found
    rcases Sample.latest_fleet found with rfl | rfl | rfl <;>
      norm_num [Beat.Fresh, Sample.hostA, Sample.hostB, Sample.hostAOnCpu]
  · intro host beat found
    rcases Sample.latest_fleet found with rfl | rfl | rfl
    · exact iff_of_true (by decide +kernel) (by norm_num [Beat.Fresh, Sample.hostA])
    · exact iff_of_false (by decide +kernel) (by norm_num [Beat.Fresh, Sample.hostB])
    · exact iff_of_true (by decide +kernel) (by norm_num [Beat.Fresh, Sample.hostAOnCpu])
  · have space : Redis.Literal "default".toList := by simp [Redis.Literal]
    have queue : Redis.Literal "gpu".toList := by simp [Redis.Literal]
    exact Redis.exact_of_plain space queue (by simp) plain
  · intro key
    constructor
    · intro member
      obtain rfl := List.mem_singleton.mp member
      decide +kernel
    · rintro ⟨read, matched⟩
      obtain ⟨row, found⟩ := Option.isSome_iff_exists.mp read
      obtain ⟨beat, last, alive, rfl, -⟩ := (Redis.hgetall_some separate).mp found
      rcases Sample.latest_fleet last with rfl | rfl | rfl
      · decide +kernel
      · norm_num [Redis.Alive, Redis.ttl, Redis.truncated, Sample.hostB] at alive
      · have other : Redis.globs (Redis.workersPattern (Redis.keysOf "default") "gpu")
            (Redis.workerKey "default" "hostA" "cpu") = false := by decide +kernel
        cases matched.symm.trans other
  · intro host beat found
    rcases Sample.latest_fleet found with rfl | rfl | rfl <;>
      norm_num [Beat.Fresh, Redis.Alive, Redis.ttl, Redis.truncated, Sample.hostA, Sample.hostB,
        Sample.hostAOnCpu]

namespace Sample

/-- One worker, which asks to be taken for dead after so many seconds. -/
def beaten (staleAfterS : ℚ) : List RegistryMove :=
  [.heartbeat ⟨"hostA", "gpu", none, staleAfterS, 0⟩]

theorem latest_beaten {staleAfterS : ℚ} {host : String} {beat : Beat}
    (found : latest (beaten staleAfterS) host "gpu" = some beat) :
    beat = ⟨"hostA", "gpu", none, staleAfterS, 0⟩ := by
  obtain ⟨-, written⟩ := Keyed.last_some found
  have listed := write_mem_beats written
  simpa [beaten] using listed

/-- Two workers whose keys are one. -/
def oneKey : List RegistryMove :=
  [.heartbeat ⟨"b:c", "a", none, 60, 0⟩, .heartbeat ⟨"c", "a:b", none, 60, 0⟩]

end Sample

/-- A worker that asks for half a minute is listed after 45 seconds, and one on another queue
takes the place of a live one. -/
theorem registries_mistaken :
    ¬ Right (Sample.beaten 30) "gpu" 45
      ((Postgres.registryAfter "default" (Sample.beaten 30)).live "default" "gpu" 45) ∧
    ¬ Right (Sample.beaten 30) "gpu" 45
      ((Mongo.registryAfter "default" (Sample.beaten 30)).live "gpu") ∧
    (Redis.registryAfter "default" Sample.oneKey).Scans "default" "a" 1
      ["qw:default:worker:a:b:c"] ∧
    ¬ Right Sample.oneKey "a" 1
      ((Redis.registryAfter "default" Sample.oneKey).live 1 ["qw:default:worker:a:b:c"]) := by
  have stale : ¬ ∃ beat, latest (Sample.beaten 30) "hostA" "gpu" = some beat ∧ beat.Fresh 45 := by
    rintro ⟨beat, found, fresh⟩
    obtain rfl := Sample.latest_beaten found
    norm_num [Beat.Fresh] at fresh
  refine ⟨?_, ?_, ?_, ?_⟩
  · rintro ⟨-, right⟩
    exact stale ((right "hostA").mp (by decide +kernel))
  · rintro ⟨-, right⟩
    exact stale ((right "hostA").mp (by decide +kernel))
  · intro key
    constructor
    · intro member
      obtain rfl := List.mem_singleton.mp member
      decide +kernel
    · rintro ⟨read, -⟩
      obtain ⟨row, got⟩ := Option.isSome_iff_exists.mp read
      obtain ⟨hash, found, -⟩ := Option.map_eq_some_iff.mp got
      have one : (Redis.registryAfter "default" Sample.oneKey).workers =
          [⟨"qw:default:worker:a:b:c", ⟨"c", "a:b", none, 0⟩, 60⟩] := by
        decide +kernel
      rw [one] at found
      obtain rfl := List.mem_singleton.mp (List.mem_of_find?_eq_some found)
      have named := List.find?_some found
      simp only [Bool.and_eq_true, beq_iff_eq] at named
      rw [← named.1]
      exact List.mem_singleton_self _
  · rintro ⟨-, right⟩
    obtain ⟨beat, found, -⟩ := (right "c").mp (by decide +kernel)
    have none : latest Sample.oneKey "c" "a" = none := by decide +kernel
    rw [none] at found
    cases found

end QueueWorkflows.Backend
