import QueueWorkflows.Base.Absorption
import QueueWorkflows.Base.Pool

/-! Proof outlines. A path that checks something in one transaction and acts on it in
a later one carries an assertion about the store in between. An outline states what
is asserted where. The assertions that others may not break are those `stable` names
for the site at which the path stands; `given` is what may be taken for granted of a
transaction that commits at a site, `safe` what has to hold where the path stands. -/

namespace Transaction

variable {σ κ ε α β : Type}

/-- What surrounds a program: the terms on which its transactions interleave with
those of others, and what each of them has to achieve. -/
structure Terms (σ κ : Type) where
  stable : κ → (σ → Prop) → Prop
  given : κ → σ → σ → Prop
  safe : κ → σ → Prop
  good : σ → σ → Prop
  idle : ∀ site, stable site fun _ => True
  void : ∀ site, stable site fun _ => False

namespace Prog

variable {terms : Terms σ κ} {assertion weaker : σ → Prop}

/-- With `assertion` of the store the program finds, each of its transactions is
`good` and leaves an assertion for the next, which may be counted on in between. -/
def Outline (terms : Terms σ κ) (post : Except ε α → σ → Prop) :
    Prog σ κ ε α → (σ → Prop) → Prop
  | .pure value, assertion => ∀ state, assertion state → post (.ok value) state
  | .raise error, assertion => ∀ state, assertion state → post (.error error) state
  | .diverge, _ => True
  | .txn site act next, assertion => ∃ held : σ → Prop,
      (∀ state, assertion state → held state) ∧ terms.stable site held ∧
      (∀ state, held state → terms.safe site state) ∧
      (∀ state value after, held state → terms.given site state after →
        act state = .ok (value, after) → terms.good state after ∧
          ∃ later : σ → Prop, later after ∧ (next (.ok value)).Outline terms post later) ∧
      ∀ error, (next (.error error)).Outline terms post held

theorem Outline.weaken {post : Except ε α → σ → Prop} {program : Prog σ κ ε α}
    (outline : program.Outline terms post weaker)
    (implies : ∀ state, assertion state → weaker state) :
    program.Outline terms post assertion := by
  cases program with
  | pure value => exact fun state holds => outline state (implies state holds)
  | raise error => exact fun state holds => outline state (implies state holds)
  | diverge => trivial
  | txn site act next =>
    obtain ⟨held, enough, rest⟩ := outline
    exact ⟨held, fun state holds => enough state (implies state holds), rest⟩

/-- Where the program cannot stand, anything goes. -/
theorem Outline.of_false {post : Except ε α → σ → Prop} (program : Prog σ κ ε α) :
    program.Outline terms post fun _ => False := by
  induction program with
  | pure value => exact fun _ => False.elim
  | raise error => exact fun _ => False.elim
  | diverge => trivial
  | txn site act next ih =>
    refine ⟨_, fun _ holds => holds, terms.void site, fun _ => False.elim, ?_, fun error => ih _⟩
    intro _ _ _ impossible
    exact impossible.elim

theorem Outline.of_fact {post : Except ε α → σ → Prop} {program : Prog σ κ ε α} {fact : Prop}
    (outline : fact → program.Outline terms post assertion) :
    program.Outline terms post fun state => fact ∧ assertion state := by
  by_cases holds : fact
  · exact (outline holds).weaken fun _ both => both.2
  · exact (of_false program).weaken fun _ both => holds both.1

theorem Outline.bind {post : Except ε α → σ → Prop} {final : Except ε β → σ → Prop}
    {program : Prog σ κ ε α} {rest : α → Prog σ κ ε β}
    (first : program.Outline terms post assertion)
    (returns : ∀ value, (rest value).Outline terms final (post (.ok value)))
    (raises : ∀ error state, post (.error error) state → final (.error error) state) :
    (program >>= rest).Outline terms final assertion := by
  induction program generalizing assertion with
  | pure value => exact (returns value).weaken first
  | raise error => exact fun state holds => raises error state (first state holds)
  | diverge => trivial
  | txn site act next ih =>
    obtain ⟨held, enough, kept, safe, commits, fails⟩ := first
    refine ⟨held, enough, kept, safe, ?_, fun error => ih _ (fails error)⟩
    intro state value after holds granted done
    obtain ⟨fine, later, now, continues⟩ := commits state value after holds granted done
    exact ⟨fine, later, now, ih _ continues⟩

theorem Outline.handle {post final : Except ε α → σ → Prop} {program : Prog σ κ ε α}
    {handler : ε → Prog σ κ ε α} (first : program.Outline terms post assertion)
    (returns : ∀ value state, post (.ok value) state → final (.ok value) state)
    (raises : ∀ error, (handler error).Outline terms final (post (.error error))) :
    (program.handle handler).Outline terms final assertion := by
  induction program generalizing assertion with
  | pure value => exact fun state holds => returns value state (first state holds)
  | raise error => exact (raises error).weaken first
  | diverge => trivial
  | txn site act next ih =>
    obtain ⟨held, enough, kept, safe, commits, fails⟩ := first
    refine ⟨held, enough, kept, safe, ?_, fun error => ih _ (fails error)⟩
    intro state value after holds granted done
    obtain ⟨fine, later, now, continues⟩ := commits state value after holds granted done
    exact ⟨fine, later, now, ih _ continues⟩

/-- Composition where nothing is handed on. -/
theorem Outline.awaiting {post : Except ε α → σ → Prop} {program : Prog σ κ ε α}
    (waits : κ → Bool) (outline : program.Outline terms post assertion) :
    (program.awaiting waits).Outline terms post assertion := by
  induction program generalizing assertion with
  | txn site act next ih =>
    unfold Prog.awaiting
    split
    · trivial
    · obtain ⟨held, enough, kept, safe, commits, fails⟩ := outline
      refine ⟨held, enough, kept, safe, ?_, fun error => ih _ (fails error)⟩
      intro state value after holds granted done
      obtain ⟨fine, later, now, continues⟩ := commits state value after holds granted done
      exact ⟨fine, later, now, ih _ continues⟩
  | _ => exact outline

theorem Outline.seq {program : Prog σ κ ε α} {rest : α → Prog σ κ ε β}
    (first : program.Outline terms (fun _ _ => True) assertion)
    (second : ∀ value, (rest value).Outline terms (fun _ _ => True) fun _ => True) :
    (program >>= rest).Outline terms (fun _ _ => True) assertion :=
  first.bind second fun _ _ _ => trivial

theorem Outline.caught {program : Prog σ κ ε α} {handler : ε → Prog σ κ ε α}
    (first : program.Outline terms (fun _ _ => True) assertion)
    (second : ∀ error, (handler error).Outline terms (fun _ _ => True) fun _ => True) :
    (program.handle handler).Outline terms (fun _ _ => True) assertion :=
  first.handle (fun _ _ _ => trivial) second

theorem Outline.imp {post final : Except ε α → σ → Prop} {program : Prog σ κ ε α}
    (outline : program.Outline terms post assertion)
    (implies : ∀ outcome state, post outcome state → final outcome state) :
    program.Outline terms final assertion := by
  induction program generalizing assertion with
  | pure value => exact fun state holds => implies _ state (outline state holds)
  | raise error => exact fun state holds => implies _ state (outline state holds)
  | diverge => trivial
  | txn site act next ih =>
    obtain ⟨held, enough, kept, safe, commits, fails⟩ := outline
    refine ⟨held, enough, kept, safe, ?_, fun error => ih _ (fails error)⟩
    intro state value after holds granted done
    obtain ⟨fine, later, now, continues⟩ := commits state value after holds granted done
    exact ⟨fine, later, now, ih _ continues⟩

theorem Outline.commit {post : Except ε α → σ → Prop} {site : κ}
    {act : StateT σ (Except ε) α} (kept : terms.stable site assertion)
    (safe : ∀ state, assertion state → terms.safe site state)
    (commits : ∀ state value after, assertion state → terms.given site state after →
      act state = .ok (value, after) → terms.good state after ∧ post (.ok value) after)
    (raises : ∀ error state, assertion state → post (.error error) state) :
    (Prog.commit site act).Outline terms post assertion := by
  refine ⟨assertion, fun _ holds => holds, kept, safe, ?_, raises⟩
  intro state value after holds granted done
  obtain ⟨fine, reached⟩ := commits state value after holds granted done
  exact ⟨fine, post (.ok value), reached, fun _ holds => holds⟩

theorem Outline.commit_bind {final : Except ε β → σ → Prop} {site : κ}
    {act : StateT σ (Except ε) α} {rest : α → Prog σ κ ε β} (kept : terms.stable site assertion)
    (safe : ∀ state, assertion state → terms.safe site state)
    (commits : ∀ state value after, assertion state → terms.given site state after →
      act state = .ok (value, after) → terms.good state after ∧
        ∃ later : σ → Prop, later after ∧ (rest value).Outline terms final later)
    (raises : ∀ error state, assertion state → final (.error error) state) :
    (Prog.commit site act >>= rest).Outline terms final assertion :=
  ⟨assertion, fun _ holds => holds, kept, safe, commits, raises⟩

theorem Outline.ofExcept_bind {final : Except ε β → σ → Prop} {result : Except ε α}
    {rest : α → Prog σ κ ε β}
    (returns : ∀ value, result = .ok value → (rest value).Outline terms final assertion)
    (raises : ∀ error state, assertion state → final (.error error) state) :
    (Prog.ofExcept result >>= rest : Prog σ κ ε β).Outline terms final assertion := by
  cases result with
  | ok value => exact returns value rfl
  | error error => exact raises error

/-- Where every transaction is good in any state, nothing has to be asserted. -/
theorem Outline.of_always {program : Prog σ κ ε α}
    {post : Except ε α → σ → Prop} (always : program.Always terms.good)
    (harmless : ∀ site state, terms.safe site state)
    (final : ∀ outcome state, post outcome state) : program.Outline terms post assertion := by
  suffices fromAny : program.Outline terms post fun _ => True from fromAny.weaken fun _ _ => trivial
  induction program with
  | pure value => exact fun state _ => final _ state
  | raise error => exact fun state _ => final _ state
  | diverge => trivial
  | txn site act next ih =>
    refine ⟨_, fun _ holds => holds, terms.idle site, fun state _ => harmless site state, ?_,
      fun error => ih _ (always.2 _)⟩
    intro state value after _ _ done
    exact ⟨always.1 state value after done, _, trivial, ih _ (always.2 _)⟩

/-- An assertion that every site may count on and every transaction keeps. -/
theorem Outline.of_kept {program : Prog σ κ ε α}
    (marked : program.Marked fun site => terms.stable site assertion ∧
      (∀ state, assertion state → terms.safe site state) ∧ ∀ state after, terms.given site state after → assertion state →
        terms.good state after ∧ assertion after) :
    program.Outline terms (fun _ => assertion) assertion := by
  induction program with
  | pure value => exact fun _ holds => holds
  | raise error => exact fun _ holds => holds
  | diverge => trivial
  | txn site act next ih =>
    obtain ⟨kept, safe, keeps⟩ := marked.1
    refine ⟨assertion, fun _ holds => holds, kept, safe, ?_, fun error => ih _ (marked.2 _)⟩
    intro state value after holds granted _
    obtain ⟨fine, still⟩ := keeps state after granted holds
    exact ⟨fine, assertion, still, ih _ (marked.2 _)⟩

/-- What nobody breaks may be carried along. -/
theorem Outline.frame {carried : σ → Prop} {post : Except ε α → σ → Prop}
    {program : Prog σ κ ε α} (outline : program.Outline terms post assertion)
    (both : ∀ site held, terms.stable site held →
      terms.stable site fun state => held state ∧ carried state)
    (kept : ∀ site state after, terms.given site state after → carried state → carried after) :
    program.Outline terms (fun outcome state => post outcome state ∧ carried state)
      fun state => assertion state ∧ carried state := by
  induction program generalizing assertion with
  | pure value => exact fun state holds => ⟨outline state holds.1, holds.2⟩
  | raise error => exact fun state holds => ⟨outline state holds.1, holds.2⟩
  | diverge => trivial
  | txn site act next ih =>
    obtain ⟨held, enough, stable, safe, commits, fails⟩ := outline
    refine ⟨_, fun state holds => ⟨enough state holds.1, holds.2⟩, both site held stable,
      fun state holds => safe state holds.1, ?_, fun error => ih _ (fails error)⟩
    intro state value after holds granted done
    obtain ⟨fine, later, now, continues⟩ := commits state value after holds.1 granted done
    exact ⟨fine, _, ⟨now, kept site state after granted holds.2⟩, ih _ continues⟩

theorem Outline.step {post : Except ε α → σ → Prop} {program rest : Prog σ κ ε α}
    {state after : σ} (outline : program.Outline terms post assertion) (holds : assertion state)
    (granted : ∀ site, program.site? = some site → terms.given site state after)
    (stepped : program.step state = some (rest, after)) :
    (after = state ∨ terms.good state after) ∧
      ∃ later : σ → Prop, later after ∧ rest.Outline terms post later := by
  cases program with
  | txn site act next =>
    obtain ⟨held, enough, -, -, commits, fails⟩ := outline
    simp only [Prog.step] at stepped
    split at stepped
    · rename_i value final done
      cases stepped
      obtain ⟨fine, later, now, continues⟩ :=
        commits _ _ _ (enough _ holds) (granted site rfl) done
      exact ⟨.inr fine, later, now, continues⟩
    · cases stepped
      exact ⟨.inl rfl, held, enough _ holds, fails _⟩
  | _ => cases stepped

theorem Outline.blip {post : Except ε α → σ → Prop} {program rest : Prog σ κ ε α}
    {error : ε} (outline : program.Outline terms post assertion)
    (failed : program.blip error = some rest) : rest.Outline terms post assertion := by
  cases program with
  | txn site act next =>
    cases failed
    obtain ⟨held, enough, -, -, -, fails⟩ := outline
    exact (fails error).weaken enough
  | _ => cases failed

end Prog

namespace Pool

variable {ρ : Type} {terms : Terms σ κ}

/-- The actor stands at some point of an outline of its program. -/
def Outlined (terms : Terms σ κ) (actor : Actor ρ σ κ ε) (state : σ) : Prop :=
  ∃ assertion : σ → Prop, assertion state ∧
    actor.prog.Outline terms (fun _ _ => True) assertion

/-- An actor of which the others break no assertion it has a right to stays on its outline. -/
theorem Outlined.undisturbed {actor : Actor ρ σ κ ε} {state after : σ}
    (outlined : Outlined terms actor state)
    (unbroken : ∀ site, actor.prog.site? = some site → ∀ held : σ → Prop,
      terms.stable site held → held state → held after) : Outlined terms actor after := by
  obtain ⟨assertion, holds, outline⟩ := outlined
  cases program : actor.prog with
  | txn site act next =>
    rw [program] at outline unbroken
    obtain ⟨held, enough, kept, rest⟩ := outline
    refine ⟨held, unbroken site rfl held kept (enough _ holds), ?_⟩
    rw [program]
    exact ⟨held, fun _ holds => holds, kept, rest⟩
  | _ =>
    refine ⟨fun _ => True, trivial, ?_⟩
    rw [program]
    simp [Prog.Outline]

theorem Outlined.safe {actor : Actor ρ σ κ ε} {state : σ} {site : κ}
    (outlined : Outlined terms actor state) (stands : actor.prog.site? = some site) :
    terms.safe site state := by
  obtain ⟨assertion, holds, outline⟩ := outlined
  cases program : actor.prog with
  | txn _ act next =>
    rw [program] at outline stands
    cases stands
    obtain ⟨held, enough, -, safe, -⟩ := outline
    exact safe state (enough state holds)
  | _ =>
    rw [program] at stands
    cases stands

theorem Outlined.step {role : ρ} {prog rest : Prog σ κ ε Unit} {state after : σ}
    (outlined : Outlined terms ⟨role, prog⟩ state)
    (granted : ∀ site, prog.site? = some site → terms.given site state after)
    (stepped : prog.step state = some (rest, after)) :
    (after = state ∨ terms.good state after) ∧ Outlined terms ⟨role, rest⟩ after := by
  obtain ⟨assertion, holds, outline⟩ := outlined
  exact outline.step holds granted stepped

theorem Outlined.blip {role : ρ} {prog rest : Prog σ κ ε Unit} {state : σ} {error : ε}
    (outlined : Outlined terms ⟨role, prog⟩ state) (failed : prog.blip error = some rest) :
    Outlined terms ⟨role, rest⟩ state := by
  obtain ⟨assertion, holds, outline⟩ := outlined
  exact ⟨assertion, holds, outline.blip failed⟩

end Pool

end Transaction
