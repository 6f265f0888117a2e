import QueueWorkflows.Base.Interference

/-! Absorbing conditions on the store: once `P` holds nobody takes it back. A path
may act on what it read before `P` held; its sites say where it might, and
`Respects` says that everywhere else it keeps `P`. -/

namespace Transaction.Prog

open Relation (ReflTransGen)

variable {σ κ ε α β : Type} {P : σ → Prop} {exempt : κ → Prop}

/-- While the others keep `P`, so does the program. -/
abbrev Keeps (P : σ → Prop) (program : Prog σ κ ε α) (state : σ) : Prop :=
  program.Safe (fun before after => P before → P after) (fun _ _ => True) state

/-- Started where `P` holds, the program keeps it. -/
def Calm (P : σ → Prop) (program : Prog σ κ ε α) : Prop :=
  ∀ state, P state → program.Keeps P state

theorem holds_later {state found : σ} (holds : P state)
    (moved : ReflTransGen (fun before after => P before → P after) state found) : P found :=
  stays P (fun _ _ move now => move now) moved holds

theorem Calm.bind {program : Prog σ κ ε α} {rest : α → Prog σ κ ε β} (first : program.Calm P)
    (second : ∀ value, (rest value).Calm P) : (program >>= rest).Calm P :=
  fun state holds => (first state holds).bind fun value found moved _ =>
    second value found (holds_later holds moved)

theorem Calm.handle {program : Prog σ κ ε α} {handler : ε → Prog σ κ ε α}
    (first : program.Calm P) (second : ∀ error, (handler error).Calm P) :
    (program.handle handler).Calm P :=
  fun state holds => (first state holds).handle fun error found moved =>
    second error found (holds_later holds moved)

theorem Calm.awaiting {program : Prog σ κ ε α} (waits : κ → Bool) (calm : program.Calm P) :
    (program.awaiting waits).Calm P :=
  fun state holds => (calm state holds).awaiting waits

theorem Calm.of_always {program : Prog σ κ ε α}
    (always : program.Always fun before after => P before → P after) : program.Calm P :=
  fun state _ => always.safe state

/-- A first transaction that keeps `P` and tells the rest what it needs to know. -/
theorem Calm.commit_bind {site : κ} {act : StateT σ (Except ε) α} {rest : α → Prog σ κ ε β}
    (commits : ∀ state value after, P state → act state = .ok (value, after) →
      P after ∧ (rest value).Keeps P after) : (commit site act >>= rest).Calm P := by
  intro state holds found moved
  have still := holds_later holds moved
  refine ⟨fun value after done => ?_, fun _ => trivial⟩
  obtain ⟨kept, continues⟩ := commits found value after still done
  exact ⟨fun _ => kept, continues⟩

/-- Except at the exempt sites, each transaction keeps `P`, and where it leaves
`P` in place the rest of the program keeps it too. -/
def Respects (exempt : κ → Prop) (P : σ → Prop) : Prog σ κ ε α → Prop
  | .txn site act next =>
      (exempt site ∨ (∀ state value after, act state = .ok (value, after) →
          (P state → P after) ∧ (P after → (next (.ok value)).Keeps P after)) ∧
        ∀ error, (next (.error error)).Calm P) ∧
      ∀ outcome, (next outcome).Respects exempt P
  | _ => True

theorem Respects.calm {program : Prog σ κ ε α} (respects : program.Respects exempt P)
    (free : ∀ site, program.site? = some site → ¬ exempt site) : program.Calm P := by
  cases program with
  | txn site act next =>
    intro state holds found moved
    have still := holds_later holds moved
    rcases respects.1 with exempted | ⟨commits, raises⟩
    · exact absurd exempted (free site rfl)
    · refine ⟨fun value after done => ?_, fun error => raises error found still⟩
      obtain ⟨kept, continues⟩ := commits found value after done
      exact ⟨kept, continues (kept still)⟩
  | _ => exact fun _ _ => trivial

theorem Respects.of_always {program : Prog σ κ ε α}
    (always : program.Always fun before after => P before → P after) :
    program.Respects exempt P := by
  induction program with
  | txn site act next ih =>
    refine ⟨.inr ⟨fun state value after done => ⟨always.1 state value after done, fun _ => ?_⟩,
      fun error => .of_always (always.2 _)⟩, fun outcome => ih outcome (always.2 outcome)⟩
    exact Always.safe (always.2 _) after
  | _ => trivial

theorem Respects.bind {program : Prog σ κ ε α} {rest : α → Prog σ κ ε β}
    (first : program.Respects exempt P) (calm : ∀ value, (rest value).Calm P)
    (second : ∀ value, (rest value).Respects exempt P) :
    (program >>= rest).Respects exempt P := by
  induction program with
  | pure value => exact second value
  | raise error => trivial
  | diverge => trivial
  | txn site act next ih =>
    refine ⟨first.1.imp id fun ⟨commits, raises⟩ => ⟨fun state value after done => ?_,
      fun error => (raises error).bind calm⟩, fun outcome => ih outcome (first.2 outcome)⟩
    obtain ⟨kept, continues⟩ := commits state value after done
    exact ⟨kept, fun holds => (continues holds).bind fun result found moved _ =>
      calm result found (holds_later holds moved)⟩

theorem Respects.handle {program : Prog σ κ ε α} {handler : ε → Prog σ κ ε α}
    (first : program.Respects exempt P) (calm : ∀ error, (handler error).Calm P)
    (second : ∀ error, (handler error).Respects exempt P) :
    (program.handle handler).Respects exempt P := by
  induction program with
  | pure value => trivial
  | raise error => exact second error
  | diverge => trivial
  | txn site act next ih =>
    refine ⟨first.1.imp id fun ⟨commits, raises⟩ => ⟨fun state value after done => ?_,
      fun error => (raises error).handle calm⟩, fun outcome => ih outcome (first.2 outcome)⟩
    obtain ⟨kept, continues⟩ := commits state value after done
    exact ⟨kept, fun holds => (continues holds).handle fun error found moved =>
      calm error found (holds_later holds moved)⟩

theorem Respects.awaiting {program : Prog σ κ ε α} (waits : κ → Bool)
    (respects : program.Respects exempt P) : (program.awaiting waits).Respects exempt P := by
  induction program with
  | txn site act next ih =>
    unfold Prog.awaiting
    split
    · trivial
    · obtain ⟨own, later⟩ := respects
      refine ⟨?_, fun outcome => ih outcome (later outcome)⟩
      rcases own with exempted | ⟨commits, raises⟩
      · exact .inl exempted
      · refine .inr ⟨fun state value after done => ?_, fun error => (raises error).awaiting waits⟩
        obtain ⟨keeps, continues⟩ := commits state value after done
        exact ⟨keeps, fun holds => (continues holds).awaiting waits⟩
  | _ => trivial

theorem Respects.commit_bind {site : κ} {act : StateT σ (Except ε) α} {rest : α → Prog σ κ ε β}
    (commits : ∀ state value after, act state = .ok (value, after) →
      (P state → P after) ∧ (P after → (rest value).Keeps P after))
    (second : ∀ value, (rest value).Respects exempt P) :
    (commit site act >>= rest).Respects exempt P := by
  refine ⟨.inr ⟨commits, fun _ _ _ => trivial⟩, fun outcome => ?_⟩
  cases outcome with
  | ok value => exact second value
  | error error => trivial

/-- Every site of the program is exempt. -/
def Marked (exempt : κ → Prop) : Prog σ κ ε α → Prop
  | .txn site _ next => exempt site ∧ ∀ outcome, (next outcome).Marked exempt
  | _ => True

theorem Marked.bind {program : Prog σ κ ε α} {rest : α → Prog σ κ ε β}
    (first : program.Marked exempt) (second : ∀ value, (rest value).Marked exempt) :
    (program >>= rest).Marked exempt := by
  induction program with
  | pure value => exact second value
  | raise error => trivial
  | diverge => trivial
  | txn site act next ih => exact ⟨first.1, fun outcome => ih outcome (first.2 outcome)⟩

theorem Marked.handle {program : Prog σ κ ε α} {handler : ε → Prog σ κ ε α}
    (first : program.Marked exempt) (second : ∀ error, (handler error).Marked exempt) :
    (program.handle handler).Marked exempt := by
  induction program with
  | pure value => trivial
  | raise error => exact second error
  | diverge => trivial
  | txn site act next ih => exact ⟨first.1, fun outcome => ih outcome (first.2 outcome)⟩

theorem Marked.awaiting {program : Prog σ κ ε α} (waits : κ → Bool)
    (marked : program.Marked exempt) : (program.awaiting waits).Marked exempt := by
  induction program with
  | txn site act next ih =>
    unfold Prog.awaiting
    split
    · trivial
    · exact ⟨marked.1, fun outcome => ih outcome (marked.2 outcome)⟩
  | _ => trivial

theorem Marked.commit {site : κ} {act : StateT σ (Except ε) α} (exempted : exempt site) :
    (Prog.commit site act).Marked exempt := by
  refine ⟨exempted, fun outcome => ?_⟩
  cases outcome <;> trivial

theorem Marked.ofExcept (result : Except ε α) :
    (Prog.ofExcept result : Prog σ κ ε α).Marked exempt := by
  cases result <;> trivial

theorem Marked.step {program rest : Prog σ κ ε α} {state after : σ}
    (marked : program.Marked exempt) (stepped : program.step state = some (rest, after)) :
    rest.Marked exempt := by
  cases program with
  | txn site act next =>
    simp only [Prog.step] at stepped
    split at stepped <;> cases stepped <;> exact marked.2 _
  | _ => cases stepped

theorem Marked.blip {program rest : Prog σ κ ε α} {error : ε} (marked : program.Marked exempt)
    (failed : program.blip error = some rest) : rest.Marked exempt := by
  cases program with
  | txn site act next =>
    cases failed
    exact marked.2 _
  | _ => cases failed

theorem Marked.here {program : Prog σ κ ε α} {site : κ} (marked : program.Marked exempt)
    (stands : program.site? = some site) : exempt site := by
  cases program with
  | txn _ act next =>
    cases stands
    exact marked.1
  | _ => cases stands

theorem Marked.respects {program : Prog σ κ ε α} (marked : program.Marked exempt) :
    program.Respects exempt P := by
  induction program with
  | txn site act next ih => exact ⟨.inl marked.1, fun outcome => ih outcome (marked.2 outcome)⟩
  | _ => trivial

theorem Marked.respects_bind {program : Prog σ κ ε α} {rest : α → Prog σ κ ε β}
    (first : program.Marked exempt) (second : ∀ value, (rest value).Respects exempt P) :
    (program >>= rest).Respects exempt P := by
  induction program with
  | pure value => exact second value
  | raise error => trivial
  | diverge => trivial
  | txn site act next ih => exact ⟨.inl first.1, fun outcome => ih outcome (first.2 outcome)⟩

end Transaction.Prog
