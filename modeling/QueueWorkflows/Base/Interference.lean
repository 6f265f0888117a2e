import QueueWorkflows.Base.Program

/-! Reasoning about programs whose transactions interleave with those of others.
Each predicate is a recursion over the transaction tree with one rule for each
way programs are composed, so that a proof follows the program's own text. -/

namespace Transaction.Prog

open Relation (ReflTransGen)

variable {σ κ ε α β : Type}

/-- What every move keeps, any number of them keeps. -/
theorem stays {R : σ → σ → Prop} (holds : σ → Prop)
    (stable : ∀ state after, R state after → holds state → holds after) {state after : σ}
    (moved : ReflTransGen R state after) (now : holds state) : holds after := by
  induction moved with
  | refl => exact now
  | tail _ move ih => exact stable _ _ move ih

section Safe

variable {R : σ → σ → Prop} {state : σ}

/-- Started in `state`, with other clients moving the store by `R` in between,
every transaction of the program is itself an `R` move, and a value is returned
only with `post`. Nothing is asked when the program raises. -/
def Safe (R : σ → σ → Prop) (post : α → σ → Prop) : Prog σ κ ε α → σ → Prop
  | .pure value, state => post value state
  | .raise _, _ => True
  | .diverge, _ => True
  | .txn _ act next, state => ∀ found, ReflTransGen R state found →
      (∀ value after, act found = .ok (value, after) →
        R found after ∧ (next (.ok value)).Safe R post after) ∧
      ∀ error, (next (.error error)).Safe R post found

theorem Safe.bind {post : α → σ → Prop} {final : β → σ → Prop} {program : Prog σ κ ε α}
    {rest : α → Prog σ κ ε β} (first : program.Safe R post state)
    (second : ∀ value found, ReflTransGen R state found → post value found →
      (rest value).Safe R final found) : (program >>= rest).Safe R final state := by
  induction program generalizing state with
  | pure value => exact second value state .refl first
  | raise error => trivial
  | diverge => trivial
  | txn site act next ih =>
    intro found moved
    obtain ⟨commits, raises⟩ := first found moved
    refine ⟨fun value after done => ?_, fun error => ?_⟩
    · obtain ⟨move, continues⟩ := commits value after done
      refine ⟨move, ih (.ok value) continues fun result later ahead => ?_⟩
      exact second result later ((moved.tail move).trans ahead)
    · exact ih (.error error) (raises error) fun result later ahead =>
        second result later (moved.trans ahead)

theorem Safe.handle {post : α → σ → Prop} {program : Prog σ κ ε α}
    {handler : ε → Prog σ κ ε α} (first : program.Safe R post state)
    (second : ∀ error found, ReflTransGen R state found →
      (handler error).Safe R post found) : (program.handle handler).Safe R post state := by
  induction program generalizing state with
  | pure value => exact first
  | raise error => exact second error state .refl
  | diverge => trivial
  | txn site act next ih =>
    intro found moved
    obtain ⟨commits, raises⟩ := first found moved
    refine ⟨fun value after done => ?_, fun error => ?_⟩
    · obtain ⟨move, continues⟩ := commits value after done
      exact ⟨move, ih (.ok value) continues fun error later ahead =>
        second error later ((moved.tail move).trans ahead)⟩
    · exact ih (.error error) (raises error) fun error later ahead =>
        second error later (moved.trans ahead)

theorem Safe.commit {post : α → σ → Prop} {site : κ} {act : StateT σ (Except ε) α}
    (commits : ∀ found, ReflTransGen R state found → ∀ value after,
      act found = .ok (value, after) → R found after ∧ post value after) :
    (Prog.commit site act).Safe R post state := by
  intro found moved
  exact ⟨commits found moved, fun _ => trivial⟩

theorem Safe.ofExcept {post : α → σ → Prop} {result : Except ε α}
    (returns : ∀ value, result = .ok value → post value state) :
    (Prog.ofExcept result : Prog σ κ ε α).Safe R post state := by
  cases result with
  | ok value => exact returns value rfl
  | error error => trivial

theorem Safe.awaiting {post : α → σ → Prop} {program : Prog σ κ ε α} (waits : κ → Bool)
    (safe : program.Safe R post state) : (program.awaiting waits).Safe R post state := by
  induction program generalizing state with
  | txn site act next ih =>
    unfold Prog.awaiting
    split
    · trivial
    · intro found moved
      obtain ⟨commits, raises⟩ := safe found moved
      refine ⟨fun value after done => ?_, fun error => ih _ (raises error)⟩
      obtain ⟨move, continues⟩ := commits value after done
      exact ⟨move, ih _ continues⟩
  | _ => exact safe

theorem Safe.weaken {post final : α → σ → Prop} {program : Prog σ κ ε α}
    (first : program.Safe R post state)
    (implies : ∀ value found, ReflTransGen R state found → post value found →
      final value found) : program.Safe R final state := by
  rw [← bind_pure program]
  exact first.bind implies

/-- A safe program stays safe while others move. -/
theorem Safe.stable {post : α → σ → Prop} {program : Prog σ κ ε α} {found : σ}
    (kept : ∀ value {first second}, R first second → post value first → post value second)
    (safe : program.Safe R post state) (moved : ReflTransGen R state found) :
    program.Safe R post found := by
  cases program with
  | pure value => exact stays (post value) (fun _ _ move => kept value move) moved safe
  | raise error => trivial
  | diverge => trivial
  | txn site act next => exact fun later ahead => safe later (moved.trans ahead)

theorem Safe.step {post : α → σ → Prop} {program rest : Prog σ κ ε α} {after : σ}
    (safe : program.Safe R post state) (stepped : program.step state = some (rest, after)) :
    ReflTransGen R state after ∧ rest.Safe R post after := by
  cases program with
  | txn site act next =>
    obtain ⟨commits, raises⟩ := safe state .refl
    simp only [Prog.step] at stepped
    split at stepped
    · rename_i value final done
      cases stepped
      exact ⟨.single (commits _ _ done).1, (commits _ _ done).2⟩
    · cases stepped
      exact ⟨.refl, raises _⟩
  | _ => cases stepped

theorem Safe.blip {post : α → σ → Prop} {program rest : Prog σ κ ε α} {error : ε}
    (safe : program.Safe R post state) (failed : program.blip error = some rest) :
    rest.Safe R post state := by
  cases program with
  | txn site act next =>
    cases failed
    exact (safe state .refl).2 error
  | _ => cases failed

end Safe

section Always

variable {G : σ → σ → Prop} {S : κ → σ → σ → Prop}

/-- Whatever state each of its transactions finds, it changes it by a move that `S` allows
at its site. -/
def Sited (S : κ → σ → σ → Prop) : Prog σ κ ε α → Prop
  | .txn site act next =>
      (∀ state value after, act state = .ok (value, after) → S site state after) ∧
      ∀ outcome, (next outcome).Sited S
  | _ => True

/-- The same move at every site. -/
abbrev Always (G : σ → σ → Prop) (program : Prog σ κ ε α) : Prop :=
  program.Sited fun _ => G

theorem Sited.bind {program : Prog σ κ ε α} {rest : α → Prog σ κ ε β}
    (first : program.Sited S) (second : ∀ value, (rest value).Sited S) :
    (program >>= rest).Sited S := by
  induction program with
  | pure value => exact second value
  | raise error => trivial
  | diverge => trivial
  | txn site act next ih => exact ⟨first.1, fun outcome => ih outcome (first.2 outcome)⟩

theorem Sited.handle {program : Prog σ κ ε α} {handler : ε → Prog σ κ ε α}
    (first : program.Sited S) (second : ∀ error, (handler error).Sited S) :
    (program.handle handler).Sited S := by
  induction program with
  | pure value => trivial
  | raise error => exact second error
  | diverge => trivial
  | txn site act next ih => exact ⟨first.1, fun outcome => ih outcome (first.2 outcome)⟩

theorem Sited.awaiting {program : Prog σ κ ε α} (waits : κ → Bool) (sited : program.Sited S) :
    (program.awaiting waits).Sited S := by
  induction program with
  | txn site act next ih =>
    unfold Prog.awaiting
    split
    · trivial
    · exact ⟨sited.1, fun outcome => ih outcome (sited.2 outcome)⟩
  | _ => trivial

theorem Sited.commit {site : κ} {act : StateT σ (Except ε) α}
    (commits : ∀ state value after, act state = .ok (value, after) → S site state after) :
    (Prog.commit site act).Sited S := by
  refine ⟨commits, fun outcome => ?_⟩
  cases outcome <;> trivial

theorem Sited.ofExcept (result : Except ε α) :
    (Prog.ofExcept result : Prog σ κ ε α).Sited S := by
  cases result <;> trivial

theorem Sited.step {program rest : Prog σ κ ε α} {state after : σ}
    (sited : program.Sited S) (stepped : program.step state = some (rest, after)) :
    (∃ site, program.site? = some site ∧ (after = state ∨ S site state after)) ∧
      rest.Sited S := by
  cases program with
  | txn site act next =>
    simp only [Prog.step] at stepped
    split at stepped
    · rename_i value final done
      cases stepped
      exact ⟨⟨site, rfl, .inr (sited.1 _ _ _ done)⟩, sited.2 _⟩
    · cases stepped
      exact ⟨⟨site, rfl, .inl rfl⟩, sited.2 _⟩
  | _ => cases stepped

theorem Sited.blip {program rest : Prog σ κ ε α} {error : ε} (sited : program.Sited S)
    (failed : program.blip error = some rest) : rest.Sited S := by
  cases program with
  | txn site act next =>
    cases failed
    exact sited.2 _
  | _ => cases failed

theorem Always.bind {program : Prog σ κ ε α} {rest : α → Prog σ κ ε β}
    (first : program.Always G) (second : ∀ value, (rest value).Always G) :
    (program >>= rest).Always G :=
  Sited.bind first second

theorem Always.handle {program : Prog σ κ ε α} {handler : ε → Prog σ κ ε α}
    (first : program.Always G) (second : ∀ error, (handler error).Always G) :
    (program.handle handler).Always G :=
  Sited.handle first second

theorem Always.commit {site : κ} {act : StateT σ (Except ε) α}
    (commits : ∀ state value after, act state = .ok (value, after) → G state after) :
    (Prog.commit site act).Always G :=
  Sited.commit commits

theorem Always.ofExcept (result : Except ε α) :
    (Prog.ofExcept result : Prog σ κ ε α).Always G :=
  Sited.ofExcept result

theorem Always.of_true (program : Prog σ κ ε α) : program.Always fun _ _ => True := by
  induction program with
  | txn site act next ih => exact ⟨fun _ _ _ _ => trivial, ih⟩
  | _ => trivial

theorem Always.weaken {H : σ → σ → Prop} {program : Prog σ κ ε α}
    (implies : ∀ state after, G state after → H state after) (always : program.Always G) :
    program.Always H := by
  induction program with
  | txn site act next ih =>
    exact ⟨fun state value after done => implies _ _ (always.1 state value after done),
      fun outcome => ih outcome (always.2 outcome)⟩
  | _ => trivial

theorem Always.step {program rest : Prog σ κ ε α} {state after : σ}
    (always : program.Always G) (stepped : program.step state = some (rest, after)) :
    (after = state ∨ G state after) ∧ rest.Always G := by
  obtain ⟨⟨_, -, moved⟩, continues⟩ := Sited.step always stepped
  exact ⟨moved, continues⟩

theorem Always.blip {program rest : Prog σ κ ε α} {error : ε} (always : program.Always G)
    (failed : program.blip error = some rest) : rest.Always G :=
  Sited.blip always failed

/-- What every move keeps, a run alone keeps, whether it comes to an end or not. -/
theorem Always.run {holds : σ → Prop} {program : Prog σ κ ε α} {state : σ}
    (always : program.Always G)
    (stable : ∀ state after, G state after → holds state → holds after) (now : holds state) :
    holds (program.run state).2 := by
  induction program generalizing state with
  | txn site act next ih =>
    simp only [Prog.run]
    cases done : act state with
    | ok pair => exact ih _ (always.2 _) (stable _ _ (always.1 _ _ _ done) now)
    | error error => exact ih _ (always.2 _) now
  | _ => exact now

/-- A program whose transactions are all `R` moves is safe from any state. -/
theorem Always.safe {R : σ → σ → Prop} {program : Prog σ κ ε α} (always : program.Always R)
    (state : σ) : program.Safe R (fun _ _ => True) state := by
  induction program generalizing state with
  | txn site act next ih =>
    intro found _
    exact ⟨fun value after done => ⟨always.1 _ _ _ done, ih _ (always.2 _) after⟩,
      fun error => ih _ (always.2 _) found⟩
  | _ => trivial

end Always

section Course

variable {R : σ → σ → Prop} {state last : σ} {trace : List (σ × σ)} {outcome : Except ε α}

/-- A course that a program takes to its end, with others moving the store by `R` in
between: each of its own transactions with the state it finds and the one it leaves,
what the program comes to, and the state it leaves behind. -/
inductive Course (R : σ → σ → Prop) :
    Prog σ κ ε α → σ → List (σ × σ) → Except ε α → σ → Prop
  | returns (value : α) (state : σ) : Course R (.pure value) state [] (.ok value) state
  | raises (error : ε) (state : σ) : Course R (.raise error) state [] (.error error) state
  | commits {β : Type} {site : κ} {act : StateT σ (Except ε) β}
      {next : Except ε β → Prog σ κ ε α} {state found after last : σ} {value : β}
      {trace : List (σ × σ)} {outcome : Except ε α} (moved : ReflTransGen R state found)
      (done : act found = .ok (value, after))
      (rest : Course R (next (.ok value)) after trace outcome last) :
      Course R (.txn site act next) state ((found, after) :: trace) outcome last
  | rollsBack {β : Type} {site : κ} {act : StateT σ (Except ε) β}
      {next : Except ε β → Prog σ κ ε α} {state found last : σ} {error : ε}
      {trace : List (σ × σ)} {outcome : Except ε α} (moved : ReflTransGen R state found)
      (failed : act found = .error error)
      (rest : Course R (next (.error error)) found trace outcome last) :
      Course R (.txn site act next) state ((found, found) :: trace) outcome last

/-- Where a client that may have to wait comes to its end, it has not waited. -/
theorem Course.of_awaiting {program : Prog σ κ ε α} {waits : κ → Bool}
    (course : (program.awaiting waits).Course R state trace outcome last) :
    program.Course R state trace outcome last := by
  induction program generalizing state trace outcome last with
  | txn site act next ih =>
    unfold Prog.awaiting at course
    split at course
    · cases course
    · cases course with
      | commits moved done rest => exact .commits moved done (ih _ rest)
      | rollsBack moved failed rest => exact .rollsBack moved failed (ih _ rest)
  | _ => exact course

theorem Course.pure_cases {value : α}
    (course : (Prog.pure value : Prog σ κ ε α).Course R state trace outcome last) :
    trace = [] ∧ outcome = .ok value ∧ last = state := by
  cases course
  exact ⟨rfl, rfl, rfl⟩

theorem Course.commit_bind {site : κ} {act : StateT σ (Except ε) β}
    {rest : β → Prog σ κ ε α}
    (course : (Prog.commit site act >>= rest).Course R state trace outcome last) :
    ∃ found, ReflTransGen R state found ∧
      ((∃ value after tail, act found = .ok (value, after) ∧ trace = (found, after) :: tail ∧
          (rest value).Course R after tail outcome last) ∨
        ∃ error, act found = .error error ∧ trace = [(found, found)] ∧ outcome = .error error ∧
          last = found) := by
  cases course with
  | commits moved done rest => exact ⟨_, moved, .inl ⟨_, _, _, done, rfl, rest⟩⟩
  | rollsBack moved failed rest =>
    cases rest
    exact ⟨_, moved, .inr ⟨_, failed, rfl, rfl, rfl⟩⟩

theorem Course.commit_cases {site : κ} {act : StateT σ (Except ε) α}
    (course : (Prog.commit site act).Course R state trace outcome last) :
    ∃ found, ReflTransGen R state found ∧ trace = [(found, last)] ∧
      ((∃ value, act found = .ok (value, last) ∧ outcome = .ok value) ∨
        ∃ error, act found = .error error ∧ outcome = .error error ∧ last = found) := by
  rw [← bind_pure (Prog.commit site act)] at course
  obtain ⟨found, moved, ⟨value, after, tail, done, rfl, rest⟩ | ⟨error, failed, rfl, ends, rfl⟩⟩ :=
    course.commit_bind
  · obtain ⟨rfl, rfl, rfl⟩ := rest.pure_cases
    exact ⟨found, moved, rfl, .inl ⟨value, done, rfl⟩⟩
  · exact ⟨_, moved, rfl, .inr ⟨error, failed, ends, rfl⟩⟩

/-- Under `try … except`, a transaction that raises goes on with the handler. -/
theorem Course.commit_bind_handle {site : κ} {act : StateT σ (Except ε) β}
    {rest : β → Prog σ κ ε α} {handler : ε → Prog σ κ ε α}
    (course : ((Prog.commit site act >>= rest).handle handler).Course R state trace outcome last) :
    ∃ found, ReflTransGen R state found ∧
      ((∃ value after tail, act found = .ok (value, after) ∧ trace = (found, after) :: tail ∧
          ((rest value).handle handler).Course R after tail outcome last) ∨
        ∃ error tail, act found = .error error ∧ trace = (found, found) :: tail ∧
          (handler error).Course R found tail outcome last) := by
  cases course with
  | commits moved done rest => exact ⟨_, moved, .inl ⟨_, _, _, done, rfl, rest⟩⟩
  | rollsBack moved failed rest => exact ⟨_, moved, .inr ⟨_, _, failed, rfl, rest⟩⟩

theorem Course.bind_cases {program : Prog σ κ ε β} {rest : β → Prog σ κ ε α}
    (course : (program >>= rest).Course R state trace outcome last) :
    (∃ value middle first second, program.Course R state first (.ok value) middle ∧
        (rest value).Course R middle second outcome last ∧ trace = first ++ second) ∨
      ∃ error, program.Course R state trace (.error error) last ∧ outcome = .error error := by
  induction program generalizing state trace with
  | pure value => exact .inl ⟨value, state, [], trace, .returns value state, course, rfl⟩
  | raise error =>
    cases course
    exact .inr ⟨error, .raises error _, rfl⟩
  | diverge => cases course
  | txn site act next ih =>
    cases course with
    | commits moved done tail =>
      rcases ih _ tail with ⟨value, middle, first, second, mine, theirs, rfl⟩ | ⟨error, mine, ends⟩
      · exact .inl ⟨value, middle, _, second, .commits moved done mine, theirs, rfl⟩
      · exact .inr ⟨error, .commits moved done mine, ends⟩
    | rollsBack moved failed tail =>
      rcases ih _ tail with ⟨value, middle, first, second, mine, theirs, rfl⟩ | ⟨error, mine, ends⟩
      · exact .inl ⟨value, middle, _, second, .rollsBack moved failed mine, theirs, rfl⟩
      · exact .inr ⟨error, .rollsBack moved failed mine, ends⟩

theorem Course.handle_cases {program : Prog σ κ ε α} {handler : ε → Prog σ κ ε α}
    (course : (program.handle handler).Course R state trace outcome last) :
    (∃ value, program.Course R state trace (.ok value) last ∧ outcome = .ok value) ∨
      ∃ error middle first second, program.Course R state first (.error error) middle ∧
        (handler error).Course R middle second outcome last ∧ trace = first ++ second := by
  induction program generalizing state trace with
  | pure value =>
    cases course
    exact .inl ⟨value, .returns value _, rfl⟩
  | raise error => exact .inr ⟨error, state, [], trace, .raises error state, course, rfl⟩
  | diverge => cases course
  | txn site act next ih =>
    cases course with
    | commits moved done tail =>
      rcases ih _ tail with ⟨value, mine, ends⟩ | ⟨error, middle, first, second, mine, theirs, rfl⟩
      · exact .inl ⟨value, .commits moved done mine, ends⟩
      · exact .inr ⟨error, middle, _, second, .commits moved done mine, theirs, rfl⟩
    | rollsBack moved failed tail =>
      rcases ih _ tail with ⟨value, mine, ends⟩ | ⟨error, middle, first, second, mine, theirs, rfl⟩
      · exact .inl ⟨value, .rollsBack moved failed mine, ends⟩
      · exact .inr ⟨error, middle, _, second, .rollsBack moved failed mine, theirs, rfl⟩

/-- Along a course the store moves by what the others do and by what the program may do. -/
theorem Course.moves {G : σ → σ → Prop} {program : Prog σ κ ε α} (always : program.Always G)
    (course : program.Course R state trace outcome last) :
    ReflTransGen (fun before after => R before after ∨ G before after) state last := by
  have others {before after : σ} (moved : ReflTransGen R before after) :
      ReflTransGen (fun before after => R before after ∨ G before after) before after :=
    moved.lift id fun _ _ => .inl
  induction course with
  | returns => exact .refl
  | raises => exact .refl
  | commits moved done _ ih =>
    exact (others moved).trans (.head (.inr (always.1 _ _ _ done)) (ih (always.2 _)))
  | rollsBack moved _ _ ih => exact (others moved).trans (ih (always.2 _))

/-- Each transaction of a course changes the state it finds by what the program may do. -/
theorem Course.each {G : σ → σ → Prop} {program : Prog σ κ ε α} (refl : ∀ state, G state state)
    (always : program.Always G) (course : program.Course R state trace outcome last) :
    ∀ move ∈ trace, G move.1 move.2 := by
  induction course with
  | returns => exact fun _ member => absurd member List.not_mem_nil
  | raises => exact fun _ member => absurd member List.not_mem_nil
  | commits moved done _ ih =>
    exact List.forall_mem_cons.mpr ⟨always.1 _ _ _ done, ih (always.2 _)⟩
  | rollsBack moved _ _ ih => exact List.forall_mem_cons.mpr ⟨refl _, ih (always.2 _)⟩

/-- What the others keep and the program keeps, every transaction of a course finds. -/
theorem Course.finds {G : σ → σ → Prop} {holds : σ → Prop} {program : Prog σ κ ε α}
    (others : ∀ state after, R state after → holds state → holds after)
    (own : ∀ state after, G state after → holds state → holds after) (always : program.Always G)
    (course : program.Course R state trace outcome last) (now : holds state) :
    ∀ move ∈ trace, holds move.1 := by
  induction course with
  | returns => exact fun _ member => absurd member List.not_mem_nil
  | raises => exact fun _ member => absurd member List.not_mem_nil
  | commits moved done _ ih =>
    have found := stays holds others moved now
    exact List.forall_mem_cons.mpr
      ⟨found, ih (always.2 _) (own _ _ (always.1 _ _ _ done) found)⟩
  | rollsBack moved _ _ ih =>
    have found := stays holds others moved now
    exact List.forall_mem_cons.mpr ⟨found, ih (always.2 _) found⟩

/-- A program that runs alone takes a course in which nobody else moves. -/
theorem Course.of_run {program : Prog σ κ ε α} (ends : (program.run state).1 = some outcome) :
    ∃ trace, program.Course R state trace outcome (program.run state).2 := by
  induction program generalizing state with
  | pure value =>
    cases ends
    exact ⟨[], .returns value state⟩
  | raise error =>
    cases ends
    exact ⟨[], .raises error state⟩
  | diverge => cases ends
  | txn site act next ih =>
    simp only [Prog.run] at ends ⊢
    cases done : act state with
    | ok pair =>
      rw [done] at ends
      obtain ⟨trace, rest⟩ := ih _ ends
      exact ⟨_, .commits .refl done rest⟩
    | error error =>
      rw [done] at ends
      obtain ⟨trace, rest⟩ := ih _ ends
      exact ⟨_, .rollsBack .refl done rest⟩

end Course

end Transaction.Prog
