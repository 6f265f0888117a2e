import QueueWorkflows.Base.Interference

/-! Labelled transition systems, and pools of programs that share one store. A
step of a pool is one transaction of one of its actors; an actor may also see its
next transaction fail, or die. -/

namespace Transaction

section Reach

universe u v

variable {σ : Type u} {ℓ : Type v}

/-- The states a system reaches by steps that all meet the condition `ok` on the
state they start from. -/
inductive Reach (step : σ → ℓ → Option σ) (ok : σ → ℓ → Bool) (first : σ) : σ → Prop
  | start : Reach step ok first first
  | next {state after : σ} (label : ℓ) (before : Reach step ok first state)
      (allowed : ok state label = true) (stepped : step state label = some after) :
      Reach step ok first after

variable {step : σ → ℓ → Option σ} {ok : σ → ℓ → Bool} {first last : σ}

/-- What holds at the start and survives every allowed step holds throughout. -/
theorem Reach.invariant {holds : σ → Prop} (initial : holds first)
    (preserved : ∀ state label after, holds state → ok state label = true →
      step state label = some after → holds after)
    (reached : Reach step ok first last) : holds last := by
  induction reached with
  | start => exact initial
  | next label _ allowed stepped ih => exact preserved _ label _ ih allowed stepped

theorem Reach.trans {middle : σ} (early : Reach step ok first middle)
    (onward : Reach step ok middle last) : Reach step ok first last := by
  induction onward with
  | start => exact early
  | next label _ allowed stepped ih => exact ih.next label allowed stepped

/-- Follow a schedule, giving up at a step that is not allowed or not possible. -/
def follow (step : σ → ℓ → Option σ) (ok : σ → ℓ → Bool) : σ → List ℓ → Option σ
  | state, [] => some state
  | state, label :: labels =>
    if ok state label then (step state label).bind fun after => follow step ok after labels
    else none

private theorem reach_follow {labels : List ℓ} {state : σ} (reached : Reach step ok first state)
    (followed : follow step ok state labels = some last) : Reach step ok first last := by
  induction labels generalizing state with
  | nil =>
    cases followed
    exact reached
  | cons label labels ih =>
    simp only [follow] at followed
    split at followed
    · rename_i allowed
      obtain ⟨after, stepped, rest⟩ := Option.bind_eq_some_iff.mp followed
      exact ih (reached.next label allowed stepped) rest
    · cases followed

theorem Reach.of_follow (labels : List ℓ) (followed : follow step ok first labels = some last) :
    Reach step ok first last :=
  reach_follow .start followed

/-- The end of a schedule that can be followed is reached. -/
theorem Reach.follow_getD (labels : List ℓ) (able : (follow step ok first labels).isSome = true) :
    Reach step ok first ((follow step ok first labels).getD first) := by
  obtain ⟨last, followed⟩ := Option.isSome_iff_exists.mp able
  rw [followed]
  exact .of_follow labels followed

end Reach

structure Actor (ρ σ κ ε : Type) where
  role : ρ
  prog : Prog σ κ ε Unit

structure Pool (ρ σ κ ε : Type) where
  store : σ
  actors : List (Actor ρ σ κ ε) := []

namespace Pool

variable {ρ σ κ ε : Type}

def spawn (pool : Pool ρ σ κ ε) (role : ρ) (prog : Prog σ κ ε Unit) : Pool ρ σ κ ε :=
  { pool with actors := pool.actors ++ [⟨role, prog⟩] }

def advance (pool : Pool ρ σ κ ε) (index : Nat) : Option (Pool ρ σ κ ε) :=
  pool.actors[index]?.bind fun actor =>
    (actor.prog.step pool.store).map fun (rest, after) =>
      ⟨after, pool.actors.set index { actor with prog := rest }⟩

def blip (pool : Pool ρ σ κ ε) (index : Nat) (error : ε) : Option (Pool ρ σ κ ε) :=
  pool.actors[index]?.bind fun actor =>
    (actor.prog.blip error).map fun rest =>
      { pool with actors := pool.actors.set index { actor with prog := rest } }

def crash (pool : Pool ρ σ κ ε) (index : Nat) : Pool ρ σ κ ε :=
  { pool with actors := pool.actors.eraseIdx index }

@[simp] theorem store_spawn (pool : Pool ρ σ κ ε) (role : ρ) (prog : Prog σ κ ε Unit) :
    (pool.spawn role prog).store = pool.store := rfl

@[simp] theorem store_crash (pool : Pool ρ σ κ ε) (index : Nat) :
    (pool.crash index).store = pool.store := rfl

theorem advance_cases {pool after : Pool ρ σ κ ε} {index : Nat}
    (advanced : pool.advance index = some after) :
    ∃ actor rest, pool.actors[index]? = some actor ∧
      actor.prog.step pool.store = some (rest, after.store) ∧
      after.actors = pool.actors.set index { actor with prog := rest } := by
  obtain ⟨actor, found, stepped⟩ := Option.bind_eq_some_iff.mp advanced
  obtain ⟨⟨rest, store⟩, moved, rfl⟩ := Option.map_eq_some_iff.mp stepped
  exact ⟨actor, rest, found, moved, rfl⟩

theorem blip_cases {pool after : Pool ρ σ κ ε} {index : Nat} {error : ε}
    (failed : pool.blip index error = some after) :
    ∃ actor rest, pool.actors[index]? = some actor ∧ actor.prog.blip error = some rest ∧
      after.store = pool.store ∧
      after.actors = pool.actors.set index { actor with prog := rest } := by
  obtain ⟨actor, found, stepped⟩ := Option.bind_eq_some_iff.mp failed
  obtain ⟨rest, moved, rfl⟩ := Option.map_eq_some_iff.mp stepped
  exact ⟨actor, rest, found, moved, rfl, rfl⟩

/-- An actor of an updated pool is the one that moved, or stands where it stood. -/
theorem mem_set_cases {actors : List (Actor ρ σ κ ε)} {index : Nat} {new actor : Actor ρ σ κ ε}
    (member : actor ∈ actors.set index new) :
    actor = new ∨ ∃ other, other ≠ index ∧ actors[other]? = some actor := by
  obtain ⟨other, found⟩ := List.mem_iff_getElem?.mp member
  rw [List.getElem?_set] at found
  by_cases same : index = other
  · rw [if_pos same] at found
    split at found
    · exact .inl (Option.some.inj found).symm
    · cases found
  · rw [if_neg same] at found
    exact .inr ⟨other, Ne.symm same, found⟩

/-- `holds` is a property of a single actor, kept while others move the store by
`R`, by its own transactions (which are `R` moves) and by their failures. -/
structure Rule (R : σ → σ → Prop) (holds : Actor ρ σ κ ε → σ → Prop) : Prop where
  stable : ∀ {actor state after}, holds actor state → R state after → holds actor after
  step : ∀ {role prog rest state after}, holds ⟨role, prog⟩ state →
    prog.step state = some (rest, after) → R state after ∧ holds ⟨role, rest⟩ after
  blip : ∀ {role prog rest state error}, holds ⟨role, prog⟩ state →
    prog.blip error = some rest → holds ⟨role, rest⟩ state

def All (holds : Actor ρ σ κ ε → σ → Prop) (pool : Pool ρ σ κ ε) : Prop :=
  ∀ actor ∈ pool.actors, holds actor pool.store

variable {R : σ → σ → Prop} {holds : Actor ρ σ κ ε → σ → Prop} {pool after : Pool ρ σ κ ε}

theorem All.crash (index : Nat) (all : pool.All holds) : (pool.crash index).All holds :=
  fun actor present => all actor (List.mem_of_mem_eraseIdx present)

theorem All.advance (rule : Rule R holds) (all : pool.All holds) {index : Nat}
    (advanced : pool.advance index = some after) :
    R pool.store after.store ∧ after.All holds := by
  obtain ⟨actor, rest, found, stepped, actors⟩ := advance_cases advanced
  obtain ⟨move, kept⟩ := rule.step (all actor (List.mem_of_getElem? found)) stepped
  refine ⟨move, fun other present => ?_⟩
  rw [actors] at present
  rcases List.mem_or_eq_of_mem_set present with old | rfl
  · exact rule.stable (all other old) move
  · exact kept

theorem All.blip (rule : Rule R holds) (all : pool.All holds) {index : Nat} {error : ε}
    (failed : pool.blip index error = some after) : after.All holds := by
  obtain ⟨actor, rest, found, stepped, store, actors⟩ := blip_cases failed
  intro other present
  rw [actors] at present
  rw [store]
  rcases List.mem_or_eq_of_mem_set present with old | rfl
  · exact all other old
  · exact rule.blip (all actor (List.mem_of_getElem? found)) stepped

end Pool

end Transaction
