import Mathlib.Data.List.Infix

/-! A system that is driven by the operations of a history. What is right before an
operation and stays right exactly if the operation meets a condition is right throughout
exactly if every operation of the history meets it. The history may also be a log that is
told to an observer, who holds each of its events against a law. -/

namespace History

universe u v

variable {σ : Type u} {ℓ : Type v}

/-- The state after these operations. -/
def after (step : σ → ℓ → σ) (first : σ) (operations : List ℓ) : σ :=
  operations.foldl step first

variable {step : σ → ℓ → σ} {first : σ} {operations early : List ℓ} {operation : ℓ}

@[simp] theorem after_nil : after step first [] = first := rfl

@[simp] theorem after_cons :
    after step first (operation :: operations) = after step (step first operation) operations := rfl

@[simp] theorem after_append {late : List ℓ} :
    after step first (early ++ late) = after step (after step first early) late :=
  List.foldl_append

theorem after_snoc :
    after step first (operations ++ [operation]) = step (after step first operations) operation := by
  simp

/-- What an operation that meets the condition keeps right is right throughout. -/
theorem always {right : σ → Prop} {condition : σ → ℓ → Prop} (begins : right first)
    (keeps : ∀ state operation, right state → condition state operation →
      right (step state operation))
    (conditions : ∀ early operation, early ++ [operation] <+: operations →
      condition (after step first early) operation) :
    ∀ early, early <+: operations → right (after step first early) := by
  intro early
  induction early using List.reverseRecOn with
  | nil => exact fun _ => begins
  | append_singleton early operation ih =>
    intro listed
    rw [after_snoc]
    have before := ih ((List.prefix_append _ _).trans listed)
    exact keeps _ operation before (conditions early operation listed)

theorem always_iff {right : σ → Prop} {condition : σ → ℓ → Prop} (begins : right first)
    (exactly : ∀ state operation, right state →
      (right (step state operation) ↔ condition state operation)) :
    (∀ early, early <+: operations → right (after step first early)) ↔
      ∀ early operation, early ++ [operation] <+: operations →
        condition (after step first early) operation := by
  constructor
  · intro always early operation listed
    have before := always early ((List.prefix_append _ _).trans listed)
    have behind := always _ listed
    rw [after_snoc] at behind
    exact (exactly _ operation before).mp behind
  · intro conditions
    exact always begins (fun state operation before => (exactly state operation before).mpr)
      conditions

/-! ### Laws -/

/-- Every event of the log is lawful after what has been told before it. -/
def Obeyed (step : σ → ℓ → σ) (law : σ → ℓ → Prop) (first : σ) (log : List ℓ) : Prop :=
  ∀ early event, early ++ [event] <+: log → law (after step first early) event

section Obeyed

variable {law : σ → ℓ → Prop} {event : ℓ} {log late : List ℓ}

@[simp] theorem obeyed_nil : Obeyed step law first [] := by
  intro early event listed
  simp at listed

@[simp] theorem obeyed_cons : Obeyed step law first (event :: log) ↔
    law first event ∧ Obeyed step law (step first event) log := by
  constructor
  · intro obeyed
    refine ⟨obeyed [] event (by simp), fun early later listed => ?_⟩
    exact obeyed (event :: early) later (by simpa using listed)
  · rintro ⟨lawful, obeyed⟩ early later listed
    cases early with
    | nil =>
      obtain rfl : later = event := by simpa using listed
      exact lawful
    | cons other early =>
      obtain ⟨rfl, onward⟩ : other = event ∧ early ++ [later] <+: log := by simpa using listed
      exact obeyed early later onward

@[simp] theorem obeyed_append : Obeyed step law first (early ++ late) ↔
    Obeyed step law first early ∧ Obeyed step law (after step first early) late := by
  induction early generalizing first with
  | nil => simp
  | cons event early ih => simp [ih, and_assoc]

end Obeyed

end History
