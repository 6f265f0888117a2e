import QueueWorkflows.Base.Interference

/-! Programs that keep to one kind of move until their last, which may be of another:
what a loop does that ends in one statement of a different kind. -/

namespace Transaction.Prog

section Closes

variable {σ κ ε α β : Type} {G H : σ → σ → Prop}

/-- Every transaction is a `G` move, but for the one that ends the program, which may
be an `H` move. -/
def Closes (G H : σ → σ → Prop) (post : Except ε α → Prop) : Prog σ κ ε α → Prop
  | .pure value => post (.ok value)
  | .raise error => post (.error error)
  | .diverge => True
  | .txn _ act next => (∀ state value after, act state = .ok (value, after) →
        G state after ∧ (next (.ok value)).Closes G H post ∨
          H state after ∧ (next (.ok value)).inFlight = false) ∧
      ∀ error, (next (.error error)).Closes G H post

theorem Closes.bind {post : Except ε α → Prop} {final : Except ε β → Prop}
    {program : Prog σ κ ε α} {rest : α → Prog σ κ ε β}
    (first : program.Closes G (fun _ _ => False) post)
    (returns : ∀ value, post (.ok value) → (rest value).Closes G H final)
    (raises : ∀ error, post (.error error) → final (.error error)) :
    (program >>= rest).Closes G H final := by
  induction program with
  | pure value => exact returns value first
  | raise error => exact raises error first
  | diverge => trivial
  | txn site act next ih =>
    obtain ⟨commits, fails⟩ := first
    constructor
    · intro state value after done
      rcases commits state value after done with ⟨move, continues⟩ | ⟨never, -⟩
      · exact .inl ⟨move, ih _ continues⟩
      · exact never.elim
    · intro error
      exact ih _ (fails error)

theorem Closes.handle {post final : Except ε α → Prop} {program : Prog σ κ ε α}
    {handler : ε → Prog σ κ ε α} (first : program.Closes G (fun _ _ => False) post)
    (returns : ∀ value, post (.ok value) → final (.ok value))
    (raises : ∀ error, (handler error).Closes G (fun _ _ => False) final) :
    (program.handle handler).Closes G (fun _ _ => False) final := by
  induction program with
  | pure value => exact returns value first
  | raise error => exact raises error
  | diverge => trivial
  | txn site act next ih =>
    obtain ⟨commits, fails⟩ := first
    constructor
    · intro state value after done
      rcases commits state value after done with ⟨move, continues⟩ | ⟨never, -⟩
      · exact .inl ⟨move, ih _ continues⟩
      · exact never.elim
    · intro error
      exact ih _ (fails error)

theorem Closes.awaiting {post : Except ε α → Prop} {program : Prog σ κ ε α} (waits : κ → Bool)
    (closes : program.Closes G (fun _ _ => False) post) :
    (program.awaiting waits).Closes G (fun _ _ => False) post := by
  induction program with
  | txn site act next ih =>
    obtain ⟨commits, fails⟩ := closes
    unfold Prog.awaiting
    split
    · trivial
    · refine ⟨fun state value after done => ?_, fun error => ih _ (fails error)⟩
      rcases commits state value after done with ⟨move, continues⟩ | ⟨never, -⟩
      · exact .inl ⟨move, ih _ continues⟩
      · exact never.elim
  | _ => exact closes

theorem Closes.of_always {program : Prog σ κ ε α} (always : program.Always G) :
    program.Closes G H fun _ => True := by
  induction program with
  | txn site act next ih =>
    constructor
    · intro state value after done
      exact .inl ⟨always.1 state value after done, ih _ (always.2 _)⟩
    · intro error
      exact ih _ (always.2 _)
  | _ => trivial

theorem Closes.weaken {final : σ → σ → Prop} {post : Except ε α → Prop} {program : Prog σ κ ε α}
    (closes : program.Closes G H post) (implies : ∀ state after, H state after → final state after) :
    program.Closes G final post := by
  induction program with
  | txn site act next ih =>
    obtain ⟨commits, fails⟩ := closes
    constructor
    · intro state value after done
      rcases commits state value after done with ⟨move, continues⟩ | ⟨move, ended⟩
      · exact .inl ⟨move, ih _ continues⟩
      · exact .inr ⟨implies state after move, ended⟩
    · intro error
      exact ih _ (fails error)
  | _ => exact closes

theorem Closes.step {program rest : Prog σ κ ε α} {state after : σ}
    (closes : program.Closes G H fun _ => True)
    (stepped : program.step state = some (rest, after)) :
    rest.Closes G H (fun _ => True) ∧
      (after = state ∨ G state after ∨ H state after ∧ rest.inFlight = false) := by
  cases program with
  | txn site act next =>
    simp only [Prog.step] at stepped
    split at stepped
    · rename_i value final done
      cases stepped
      rcases closes.1 state value _ done with ⟨move, continues⟩ | ⟨move, ended⟩
      · exact ⟨continues, .inr (.inl move)⟩
      · refine ⟨?_, .inr (.inr ⟨move, ended⟩)⟩
        cases last : next (.ok value) with
        | txn site act next =>
          rw [last] at ended
          cases ended
        | _ => trivial
    · cases stepped
      exact ⟨closes.2 _, .inl rfl⟩
  | _ => cases stepped

theorem Closes.blip {program rest : Prog σ κ ε α} {error : ε}
    (closes : program.Closes G H fun _ => True) (failed : program.blip error = some rest) :
    rest.Closes G H fun _ => True := by
  cases program with
  | txn site act next =>
    cases failed
    exact closes.2 error
  | _ => cases failed

end Closes

end Transaction.Prog
