import QueueWorkflows.Base.Program

/-! Programs that run alone. `Solo` is the weakest precondition of a run to the
end: with one rule for each way programs are composed, a proof follows the text. -/

namespace Transaction.Prog

variable {σ κ ε α β : Type} {state : σ}

/-- Run alone from `state`, the program comes to its end, with `post` of what it
returns or raises and of the state it leaves. -/
def Solo (post : Except ε α → σ → Prop) : Prog σ κ ε α → σ → Prop
  | .pure value, state => post (.ok value) state
  | .raise error, state => post (.error error) state
  | .diverge, _ => False
  | .txn _ act next, state =>
    match act state with
    | .ok (value, after) => (next (.ok value)).Solo post after
    | .error error => (next (.error error)).Solo post state

theorem solo_iff {post : Except ε α → σ → Prop} {program : Prog σ κ ε α} :
    program.Solo post state ↔
      ∃ outcome, (program.run state).1 = some outcome ∧ post outcome (program.run state).2 := by
  induction program generalizing state with
  | pure value => simp [Solo, run]
  | raise error => simp [Solo, run]
  | diverge => simp [Solo, run]
  | txn site act next ih =>
    simp only [Solo, run]
    cases act state with
    | ok done => exact ih _
    | error error => exact ih _

theorem Solo.weaken {post final : Except ε α → σ → Prop} {program : Prog σ κ ε α}
    (solo : program.Solo post state) (implies : ∀ outcome after, post outcome after →
      final outcome after) : program.Solo final state := by
  obtain ⟨outcome, ends, holds⟩ := solo_iff.mp solo
  exact solo_iff.mpr ⟨outcome, ends, implies _ _ holds⟩

/-- A program that runs alone has one run. -/
theorem Solo.both {first second : Except ε α → σ → Prop} {program : Prog σ κ ε α}
    (one : program.Solo first state) (two : program.Solo second state) :
    program.Solo (fun outcome after => first outcome after ∧ second outcome after) state := by
  obtain ⟨outcome, ends, holds⟩ := solo_iff.mp one
  obtain ⟨other, same, also⟩ := solo_iff.mp two
  cases ends.symm.trans same
  exact solo_iff.mpr ⟨outcome, ends, holds, also⟩

/-- The rest of a program, after what `first` establishes. -/
theorem Solo.bind {post : Except ε α → σ → Prop} {final : Except ε β → σ → Prop}
    {program : Prog σ κ ε α} {rest : α → Prog σ κ ε β} (first : program.Solo post state)
    (returns : ∀ value after, post (.ok value) after → (rest value).Solo final after)
    (raises : ∀ error after, post (.error error) after → final (.error error) after) :
    (program >>= rest).Solo final state := by
  induction program generalizing state with
  | pure value => exact returns value state first
  | raise error => exact raises error state first
  | diverge => exact first
  | txn site act next ih =>
    simp only [bind_txn, Solo] at first ⊢
    split at first
    · exact ih _ first
    · exact ih _ first

theorem Solo.handle {post final : Except ε α → σ → Prop} {program : Prog σ κ ε α}
    {handler : ε → Prog σ κ ε α} (first : program.Solo post state)
    (returns : ∀ value after, post (.ok value) after → final (.ok value) after)
    (raises : ∀ error after, post (.error error) after → (handler error).Solo final after) :
    (program.handle handler).Solo final state := by
  induction program generalizing state with
  | pure value => exact returns value state first
  | raise error => exact raises error state first
  | diverge => exact first
  | txn site act next ih =>
    simp only [Prog.handle, Solo] at first ⊢
    split at first
    · exact ih _ first
    · exact ih _ first

/-- Alone, a client that may have to wait comes to its end if it need not wait. -/
theorem Solo.awaiting {post : Except ε α → σ → Prop} {program : Prog σ κ ε α} {waits : κ → Bool}
    (solo : program.Solo post state) (free : ∀ site ∈ program.sites state, waits site = false) :
    (program.awaiting waits).Solo post state := by
  rw [solo_iff, run_awaiting free]
  exact solo_iff.mp solo

theorem Solo.commit {post : Except ε α → σ → Prop} {site : κ} {act : StateT σ (Except ε) α}
    (returns : ∀ value after, act state = .ok (value, after) → post (.ok value) after)
    (raises : ∀ error, act state = .error error → post (.error error) state) :
    (Prog.commit site act).Solo post state := by
  simp only [Prog.commit, Solo]
  split
  · rename_i value after done
    exact returns value after done
  · rename_i error failed
    exact raises error failed

/-- A transaction whose outcome is known. -/
theorem Solo.of_ok {site : κ} {act : StateT σ (Except ε) α} {value : α} {after : σ}
    (done : act state = .ok (value, after)) :
    (Prog.commit site act).Solo (fun outcome last => outcome = .ok value ∧ last = after) state := by
  refine .commit (fun other last ends => ?_) fun error failed => ?_
  · cases done.symm.trans ends
    exact ⟨rfl, rfl⟩
  · cases done.symm.trans failed

theorem Solo.of_error {site : κ} {act : StateT σ (Except ε) α} {error : ε}
    (failed : act state = .error error) :
    (Prog.commit site act).Solo (fun outcome last => outcome = .error error ∧ last = state) state := by
  refine .commit (fun value last ends => ?_) fun other raised => ?_
  · cases failed.symm.trans ends
  · cases failed.symm.trans raised
    exact ⟨rfl, rfl⟩

/-- A postcondition that asks nothing of a program that raises. -/
def returning (post : α → σ → Prop) : Except ε α → σ → Prop
  | .ok value, state => post value state
  | .error _, _ => True

theorem Solo.seq {post : α → σ → Prop} {final : β → σ → Prop} {program : Prog σ κ ε α}
    {rest : α → Prog σ κ ε β} (first : program.Solo (returning post) state)
    (second : ∀ value after, post value after → (rest value).Solo (returning final) after) :
    (program >>= rest).Solo (returning final) state :=
  first.bind second fun _ _ _ => trivial

theorem Solo.returning_weaken {post final : α → σ → Prop} {program : Prog σ κ ε α}
    (solo : program.Solo (returning post) state)
    (implies : ∀ value after, post value after → final value after) :
    program.Solo (returning final) state :=
  solo.weaken fun outcome after holds => match outcome with
    | .ok value => implies value after holds
    | .error _ => trivial

theorem Solo.commit_returning {post : α → σ → Prop} {site : κ} {act : StateT σ (Except ε) α}
    (returns : ∀ value after, act state = .ok (value, after) → post value after) :
    (Prog.commit site act).Solo (returning post) state :=
  .commit returns fun _ _ => trivial

/-- A pure computation, whose exception ends the program. -/
theorem Solo.ofExcept_bind {final : β → σ → Prop} {result : Except ε α}
    {rest : α → Prog σ κ ε β}
    (second : ∀ value, result = .ok value → (rest value).Solo (returning final) state) :
    (Prog.ofExcept result >>= rest).Solo (returning final) state := by
  cases result with
  | ok value => exact second value rfl
  | error error => trivial

end Transaction.Prog
