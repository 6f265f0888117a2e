import QueueWorkflows.Base.Brackets
import QueueWorkflows.Base.History
import QueueWorkflows.Engine.Broker
import Mathlib.Data.Rat.Defs

/-! The warm-model cache of the GPU worker, `model_cache`. Its slot is two fields, and what
it advertises is a third, which the cache only reaches through a callback; the callback
swallows its own failures. Every operation runs under the cache's lock. -/

namespace QueueWorkflows

open Brackets (Mark)

/-- `handle` is the type of what loaders return, `None` apart. `models` are the ids in the
registry, and `published` is the last model the callback was given. -/
structure ModelCache (handle : Type) where
  currentModel : Option String := none
  currentHandle : Option handle := none
  lastUsed : ℚ := 0
  active : Nat := 0
  idleTtlS : ℚ
  models : List String
  published : Option String := none

namespace ModelCache

/-- What the registrar of the builtin models and the loader do, where they are called: the
ids the one registers and what it raises, and what the other returns or raises. -/
structure Loading (handle : Type) where
  registered : List String := []
  refused : Option PyErr := none
  loader : Except PyErr (Option handle)

variable {handle : Type}

def dropCache (cache : ModelCache handle) : ModelCache handle :=
  if cache.currentHandle.isNone then cache
  else { cache with currentHandle := none, currentModel := none }

def publish (model : Option String) (cache : ModelCache handle) : ModelCache handle :=
  { cache with published := model }

/-- `model_registry.register`. -/
def register (models : List String) (modelId : String) : List String :=
  if modelId ∈ models then models else models ++ [modelId]

/-- `model_registry.get`. -/
def get (modelId : String) (cache : ModelCache handle) : Except PyErr Unit :=
  if modelId ∈ cache.models then .ok ()
  else .error ⟨.keyError, "unknown model id '" ++ modelId ++ "'. Known: " ++
    sortedNames cache.models ++ ". Register via model_registry.register(ModelSpec(...))."⟩

/-- The spec has been found. -/
def load (modelId : String) (loader : Except PyErr (Option handle)) (cache : ModelCache handle) :
    Except PyErr (Option handle) × ModelCache handle :=
  match loader with
  | .error error => (.error error, cache)
  | .ok found => (.ok found, publish (some modelId) { cache with
      currentHandle := found, currentModel := some modelId })

/-- An unknown id: the builtin models are registered, and the lookup is tried again. -/
def registerAndLoad (modelId : String) (loading : Loading handle) (cache : ModelCache handle) :
    Except PyErr (Option handle) × ModelCache handle :=
  let filled := { cache with models := loading.registered.foldl register cache.models }
  match loading.refused with
  | some error => (.error error, filled)
  | none =>
    match filled.get modelId with
    | .error error => (.error error, filled)
    | .ok () => filled.load modelId loading.loader

/-- The slot holds the model. -/
def warm (modelId : String) (cache : ModelCache handle) : Bool :=
  cache.currentModel == some modelId && cache.currentHandle.isSome

def requireModel (modelId : String) (now : ℚ) (loading : Loading handle)
    (cache : ModelCache handle) : Except PyErr (Option handle) × ModelCache handle :=
  let touched := { cache with lastUsed := now }
  if touched.warm modelId then (.ok touched.currentHandle, touched)
  else
    let swapping := touched.dropCache.publish none
    match swapping.get modelId with
    | .ok () => swapping.load modelId loading.loader
    | .error _ => swapping.registerAndLoad modelId loading

def markBusy (cache : ModelCache handle) : ModelCache handle :=
  { cache with active := cache.active + 1 }

def markIdle (now : ℚ) (cache : ModelCache handle) : ModelCache handle :=
  { cache with active := cache.active - 1, lastUsed := now }

def gpuShouldUnload (handlePresent : Bool) (active : Nat) (idleS ttlS : ℚ) : Bool :=
  if ttlS ≤ 0 then false else handlePresent && active == 0 && decide (ttlS ≤ idleS)

def reapIdleOnce (now : ℚ) (cache : ModelCache handle) : Bool × ModelCache handle :=
  if gpuShouldUnload cache.currentHandle.isSome cache.active (now - cache.lastUsed) cache.idleTtlS
  then (true, cache.dropCache.publish none)
  else (false, cache)

/-- The calls of a worker's tasks and of the reaper thread, with the clock they read. -/
inductive Call (handle : Type) where
  | requireModel (modelId : String) (now : ℚ) (loading : Loading handle)
  | dropCache
  | markBusy
  | markIdle (now : ℚ)
  | reapIdleOnce (now : ℚ)

def step (cache : ModelCache handle) : Call handle → ModelCache handle
  | .requireModel modelId now loading => (cache.requireModel modelId now loading).2
  | .dropCache => cache.dropCache
  | .markBusy => cache.markBusy
  | .markIdle now => cache.markIdle now
  | .reapIdleOnce now => (cache.reapIdleOnce now).2

/-- A cache with nothing in it. -/
def empty (idleTtlS : ℚ) (models : List String) : ModelCache handle where
  idleTtlS := idleTtlS
  models := models

/-! ### Consistency -/

/-- The two fields of the slot go together, and the model that is advertised is the one in
the slot. -/
structure Consistent (cache : ModelCache handle) : Prop where
  slot : cache.currentModel = none ↔ cache.currentHandle = none
  advertised : cache.published = cache.currentModel

/-- `require_model` comes to call the loader. -/
def loads (modelId : String) (loading : Loading handle) (cache : ModelCache handle) : Prop :=
  cache.warm modelId = false ∧ (modelId ∈ cache.models ∨
    loading.refused = none ∧ modelId ∈ loading.registered.foldl register cache.models)

/-- No loader returns `None`, and nobody but the cache itself drops what is loaded. -/
def Careful (cache : ModelCache handle) : Call handle → Prop
  | .requireModel modelId _ loading => cache.loads modelId loading → loading.loader ≠ .ok none
  | .dropCache => cache.currentHandle = none
  | _ => True

section Calls

variable {cache : ModelCache handle} {modelId : String} {loading : Loading handle} {now : ℚ}
  {loader : Except PyErr (Option handle)} {call : Call handle} {calls early : List (Call handle)}

/-- Dropped and published, the cache is consistent with an empty slot. -/
theorem Consistent.dropped (consistent : Consistent cache) :
    Consistent (cache.dropCache.publish none) := by
  unfold dropCache
  split
  · rename_i missing
    have none := consistent.slot.mpr (Option.isNone_iff_eq_none.mp missing)
    exact ⟨consistent.slot, none.symm⟩
  · exact ⟨by simp [publish], rfl⟩

theorem consistent_load (consistent : Consistent cache) :
    Consistent (cache.load modelId loader).2 ↔ loader ≠ .ok none := by
  unfold load
  cases loader with
  | error error => simpa using consistent
  | ok found =>
    cases found with
    | none => simpa [publish] using fun broken : Consistent _ => absurd (broken.slot.mpr rfl) (by simp)
    | some found => exact iff_of_true ⟨by simp [publish], rfl⟩ (by simp)

theorem models_dropped : (cache.dropCache.publish none).models = cache.models := by
  unfold dropCache
  split <;> rfl

theorem get_ok : cache.get modelId = .ok () ↔ modelId ∈ cache.models := by
  unfold get
  split <;> simp_all

theorem consistent_registerAndLoad (consistent : Consistent cache) :
    Consistent (cache.registerAndLoad modelId loading).2 ↔
      (loading.refused = none ∧ modelId ∈ loading.registered.foldl register cache.models →
        loading.loader ≠ .ok none) := by
  have filled : Consistent { cache with models := loading.registered.foldl register cache.models } :=
    ⟨consistent.slot, consistent.advertised⟩
  unfold registerAndLoad
  cases refused : loading.refused with
  | some error => exact iff_of_true filled (by simp)
  | none =>
    cases found : get modelId
        { cache with models := loading.registered.foldl register cache.models } with
    | error error =>
      have unknown : modelId ∉ loading.registered.foldl register cache.models := by
        intro listed
        rw [get_ok.mpr listed] at found
        cases found
      exact iff_of_true (by simpa [found] using filled) (by simp [unknown])
    | ok _ =>
      simp only [found, consistent_load filled, get_ok.mp found, true_and, true_implies]

theorem consistent_requireModel (consistent : Consistent cache) :
    Consistent (cache.requireModel modelId now loading).2 ↔
      (cache.loads modelId loading → loading.loader ≠ .ok none) := by
  have touched : Consistent { cache with lastUsed := now } :=
    ⟨consistent.slot, consistent.advertised⟩
  have swapping := touched.dropped
  have same : warm modelId { cache with lastUsed := now } = cache.warm modelId := rfl
  simp only [requireModel, loads, same]
  cases cache.warm modelId with
  | true => exact iff_of_true (by simpa using touched) (by simp)
  | false =>
    simp only [Bool.false_eq_true, if_false, true_and]
    cases found : get modelId (publish none (dropCache { cache with lastUsed := now })) with
    | ok _ =>
      have known := get_ok.mp found
      rw [models_dropped] at known
      rw [consistent_load swapping]
      simp [known]
    | error error =>
      have unknown : modelId ∉ cache.models := by
        intro listed
        have held : modelId ∈ (publish none (dropCache { cache with lastUsed := now })).models := by
          rw [models_dropped]
          exact listed
        rw [get_ok.mpr held] at found
        cases found
      rw [consistent_registerAndLoad swapping, models_dropped]
      simp [unknown]

/-- A call leaves a consistent cache consistent exactly if it is a careful one. -/
theorem consistent_step (consistent : Consistent cache) :
    Consistent (cache.step call) ↔ Careful cache call := by
  cases call with
  | requireModel modelId now loading => exact consistent_requireModel consistent
  | dropCache =>
    show Consistent cache.dropCache ↔ cache.currentHandle = none
    unfold dropCache
    cases held : cache.currentHandle with
    | none => exact iff_of_true (by simpa using consistent) rfl
    | some found =>
      refine iff_of_false (fun broken => ?_) (by simp)
      have advertised : cache.published = none := broken.advertised
      rw [consistent.advertised, consistent.slot, held] at advertised
      cases advertised
  | markBusy => exact iff_of_true ⟨consistent.slot, consistent.advertised⟩ trivial
  | markIdle now => exact iff_of_true ⟨consistent.slot, consistent.advertised⟩ trivial
  | reapIdleOnce now =>
    refine iff_of_true ?_ trivial
    show Consistent (cache.reapIdleOnce now).2
    unfold reapIdleOnce
    split
    · exact consistent.dropped
    · exact consistent

/-! ### Busy marks -/

/-- The brackets that the calls open and close. -/
def marks (calls : List (Call handle)) : List Mark :=
  calls.filterMap fun
    | .markBusy => some .opens
    | .markIdle _ => some .closes
    | _ => none

@[simp] theorem active_dropCache : cache.dropCache.active = cache.active := by
  unfold dropCache
  split <;> rfl

theorem active_load : (cache.load modelId loader).2.active = cache.active := by
  cases loader <;> rfl

theorem active_requireModel : (cache.requireModel modelId now loading).2.active = cache.active := by
  unfold requireModel
  dsimp only
  split
  · rfl
  · split
    · rw [active_load, publish, active_dropCache]
    · unfold registerAndLoad
      dsimp only
      split
      · exact active_dropCache
      · split
        · exact active_dropCache
        · rw [active_load]
          exact active_dropCache

theorem active_reapIdleOnce : (cache.reapIdleOnce now).2.active = cache.active := by
  unfold reapIdleOnce
  split
  · exact active_dropCache
  · rfl

theorem active_after (idleTtlS : ℚ) (models : List String) :
    (History.after step (empty idleTtlS models) calls).active = Brackets.counted 0 (marks calls) := by
  induction calls using List.reverseRecOn with
  | nil => rfl
  | append_singleton calls call ih =>
    rw [History.after_snoc, marks, List.filterMap_append, Brackets.counted_append, ← marks, ← ih]
    cases call with
    | requireModel => exact active_requireModel
    | dropCache => exact active_dropCache
    | markBusy | markIdle => rfl
    | reapIdleOnce => exact active_reapIdleOnce

/-- **The model cache.** It is consistent after every call, and the reaper unloads nothing
while more tasks have been marked busy than idle, exactly if every call is careful. -/
theorem cache_consistent_iff {idleTtlS : ℚ} {models : List String} :
    ((∀ early, early <+: calls → Consistent (History.after step (empty idleTtlS models) early)) ∧
      ∀ early now, early ++ [.reapIdleOnce now] <+: calls →
        (reapIdleOnce now (History.after step (empty idleTtlS models) early)).1 = true →
        (marks early).count .opens ≤ (marks early).count .closes) ↔
    ∀ early call, early ++ [call] <+: calls →
      Careful (History.after step (empty idleTtlS models) early) call := by
  have begins : Consistent (empty idleTtlS models : ModelCache handle) := ⟨by simp [empty], rfl⟩
  have always := @History.always_iff _ _ step (empty idleTtlS models) calls Consistent Careful begins
    fun _ _ consistent => consistent_step consistent
  rw [← always]
  refine and_iff_left fun early now _ unloaded => ?_
  have idle : (History.after step (empty idleTtlS models) early).active = 0 := by
    unfold reapIdleOnce at unloaded
    split at unloaded
    · rename_i decided
      unfold gpuShouldUnload at decided
      split at decided
      · cases decided
      · simp only [Bool.and_eq_true, beq_iff_eq] at decided
        exact decided.1.2
    · cases unloaded
  rw [active_after, Brackets.counted_eq_zero_iff] at idle
  have covered := idle (marks early) List.suffix_rfl
  simpa [Brackets.Covered] using covered

end Calls

/-- A loader that returns `None`: the model is in the slot, and nothing else is. -/
theorem nothing_loaded_advertised : ¬ ∀ (idleTtlS : ℚ) (models : List String)
    (calls early : List (Call Unit)), early <+: calls →
      Consistent (History.after step (empty idleTtlS models) early) := by
  intro consistent
  have broken := consistent 60 ["m"] [.requireModel "m" 0 { loader := .ok none }]
    [.requireModel "m" 0 { loader := .ok none }] List.prefix_rfl
  exact absurd (broken.slot.mpr (by decide)) (by decide)

end ModelCache

end QueueWorkflows
