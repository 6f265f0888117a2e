import QueueWorkflows.Base.Interference

/-! Programs that come to their end whatever the others do meanwhile. `Ensures` is a
recursion over the transaction tree like `Safe`, but it rules out a loop that never comes
back, and says something of a program that raises as well. -/

namespace Transaction.Prog

open Relation (ReflTransGen)

variable {σ κ ε α β : Type} {R : σ → σ → Prop} {state last : σ} {trace : List (σ × σ)}
  {outcome : Except ε α}

/-- Started in `state`, with others moving the store by `R` in between, the program comes to
its end, with `post` of what it returns or raises and of the state it leaves. -/
def Ensures (R : σ → σ → Prop) (post : Except ε α → σ → Prop) : Prog σ κ ε α → σ → Prop
  | .pure value, state => post (.ok value) state
  | .raise error, state => post (.error error) state
  | .diverge, _ => False
  | .txn _ act next, state => ∀ found, ReflTransGen R state found →
      match act found with
      | .ok (value, after) => (next (.ok value)).Ensures R post after
      | .error error => (next (.error error)).Ensures R post found

theorem Ensures.bind {post : Except ε α → σ → Prop} {final : Except ε β → σ → Prop}
    {program : Prog σ κ ε α} {rest : α → Prog σ κ ε β} (first : program.Ensures R post state)
    (returns : ∀ value found, post (.ok value) found → (rest value).Ensures R final found)
    (raises : ∀ error found, post (.error error) found → final (.error error) found) :
    (program >>= rest).Ensures R final state := by
  induction program generalizing state with
  | pure value => exact returns value state first
  | raise error => exact raises error state first
  | diverge => exact first
  | txn site act next ih =>
    intro found moved
    have ensured := first found moved
    cases done : act found with
    | ok pair =>
      simp only [done] at ensured ⊢
      exact ih _ ensured
    | error error =>
      simp only [done] at ensured ⊢
      exact ih _ ensured

theorem Ensures.commit_bind {final : Except ε β → σ → Prop} {site : κ}
    {act : StateT σ (Except ε) α} {rest : α → Prog σ κ ε β}
    (commits : ∀ found, ReflTransGen R state found →
      (∀ value after, act found = .ok (value, after) → (rest value).Ensures R final after) ∧
      ∀ error, act found = .error error → final (.error error) found) :
    (Prog.commit site act >>= rest).Ensures R final state := by
  intro found moved
  obtain ⟨returns, raises⟩ := commits found moved
  cases done : act found with
  | ok pair => exact returns _ _ done
  | error error => exact raises error done

theorem Ensures.ofExcept {post : Except ε α → σ → Prop} {result : Except ε α}
    (holds : post result state) : (Prog.ofExcept result : Prog σ κ ε α).Ensures R post state := by
  cases result <;> exact holds

/-- Whatever the others do, the program comes to its end. -/
abbrev Ends (R : σ → σ → Prop) (program : Prog σ κ ε α) (state : σ) : Prop :=
  program.Ensures R (fun _ _ => True) state

theorem Ends.bind {program : Prog σ κ ε α} {rest : α → Prog σ κ ε β} (first : program.Ends R state)
    (second : ∀ value found, (rest value).Ends R found) : (program >>= rest).Ends R state :=
  Ensures.bind first (fun value found _ => second value found) fun _ _ _ => trivial

theorem Ends.commit_bind {site : κ} {act : StateT σ (Except ε) α} {rest : α → Prog σ κ ε β}
    (commits : ∀ found, ReflTransGen R state found → ∀ value after,
      act found = .ok (value, after) → (rest value).Ends R after) :
    (Prog.commit site act >>= rest).Ends R state :=
  Ensures.commit_bind fun found moved => ⟨commits found moved, fun _ _ => trivial⟩

theorem Ends.ofExcept (result : Except ε α) : (Prog.ofExcept result : Prog σ κ ε α).Ends R state :=
  Ensures.ofExcept trivial

/-- A course that begins with a computation outside the store. -/
theorem Course.ofExcept_bind {result : Except ε β} {rest : β → Prog σ κ ε α}
    (course : (Prog.ofExcept result >>= rest).Course R state trace outcome last) :
    (∃ value, result = .ok value ∧ (rest value).Course R state trace outcome last) ∨
      ∃ error, result = .error error ∧ trace = [] ∧ outcome = .error error ∧ last = state := by
  cases result with
  | ok value => exact .inl ⟨value, rfl, course⟩
  | error error =>
    cases course
    exact .inr ⟨error, rfl, rfl, rfl, rfl⟩

end Transaction.Prog
