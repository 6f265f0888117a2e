import Mathlib.Logic.Relation

/-! Client programs over a transactional store. A program is a tree of committed
transactions: between two of them other clients may commit, and the process may
die. A transaction that raises is rolled back, so only its outcome is seen. -/

namespace Transaction

/-- `site` names the statement a transaction is, so that a pool can tell where a
program in flight has got to. `diverge` is a loop that never comes back: an
unbounded loop is written with a bound on its unrolling, and every finite prefix
of its executions is an execution under some bound. -/
inductive Prog (σ κ ε α : Type) : Type 1 where
  | pure (value : α)
  | raise (error : ε)
  | diverge
  | txn {β : Type} (site : κ) (act : StateT σ (Except ε) β)
      (next : Except ε β → Prog σ κ ε α)

namespace Prog

variable {σ κ ε α β γ : Type}

protected def bind : Prog σ κ ε α → (α → Prog σ κ ε β) → Prog σ κ ε β
  | .pure value, rest => rest value
  | .raise error, _ => .raise error
  | .diverge, _ => .diverge
  | .txn site act next, rest => .txn site act fun outcome => (next outcome).bind rest

instance : Monad (Prog σ κ ε) where
  pure := .pure
  bind := Prog.bind

/-- `try … except`: every exception of the body goes to the handler. -/
def handle : Prog σ κ ε α → (ε → Prog σ κ ε α) → Prog σ κ ε α
  | .pure value, _ => .pure value
  | .raise error, handler => handler error
  | .diverge, _ => .diverge
  | .txn site act next, handler => .txn site act fun outcome => (next outcome).handle handler

/-- A client that waits for a lock which is never given up: it does not come back from a
transaction at such a site. -/
def awaiting (waits : κ → Bool) : Prog σ κ ε α → Prog σ κ ε α
  | .txn site act next =>
    if waits site then .diverge else .txn site act fun outcome => (next outcome).awaiting waits
  | program => program

/-- One transaction whose exception, if any, propagates. -/
def commit (site : κ) (act : StateT σ (Except ε) α) : Prog σ κ ε α :=
  .txn site act fun
    | .ok value => .pure value
    | .error error => .raise error

/-- A computation outside the store that may raise. -/
def ofExcept : Except ε α → Prog σ κ ε α
  | .ok value => .pure value
  | .error error => .raise error

@[simp] theorem pure_eq (value : α) : (pure value : Prog σ κ ε α) = .pure value := rfl

@[simp] theorem bind_pure' (value : α) (rest : α → Prog σ κ ε β) :
    (Prog.pure value >>= rest) = rest value := rfl

@[simp] theorem bind_raise (error : ε) (rest : α → Prog σ κ ε β) :
    (Prog.raise error >>= rest) = .raise error := rfl

@[simp] theorem bind_diverge (rest : α → Prog σ κ ε β) :
    (Prog.diverge >>= rest) = .diverge := rfl

@[simp] theorem bind_txn {γ : Type} (site : κ) (act : StateT σ (Except ε) γ)
    (next : Except ε γ → Prog σ κ ε α) (rest : α → Prog σ κ ε β) :
    (Prog.txn site act next >>= rest) = .txn site act fun outcome => next outcome >>= rest := rfl

@[simp] theorem ofExcept_ok (value : α) : (ofExcept (.ok value) : Prog σ κ ε α) = .pure value := rfl

@[simp] theorem ofExcept_error (error : ε) :
    (ofExcept (.error error) : Prog σ κ ε α) = .raise error := rfl

private theorem bind_value (program : Prog σ κ ε α) : program.bind .pure = program := by
  induction program with
  | txn site act next ih => exact congrArg (Prog.txn site act) (funext ih)
  | _ => rfl

private theorem bind_bind (program : Prog σ κ ε α) (first : α → Prog σ κ ε β)
    (second : β → Prog σ κ ε γ) :
    (program.bind first).bind second = program.bind fun value => (first value).bind second := by
  induction program with
  | txn site act next ih => exact congrArg (Prog.txn site act) (funext ih)
  | _ => rfl

instance : LawfulMonad (Prog σ κ ε) :=
  LawfulMonad.mk' _ bind_value (fun _ _ => rfl) bind_bind

/-- The next transaction of a program, on the state it finds. -/
def step : Prog σ κ ε α → σ → Option (Prog σ κ ε α × σ)
  | .txn _ act next, state =>
    match act state with
    | .ok (value, after) => some (next (.ok value), after)
    | .error error => some (next (.error error), state)
  | _, _ => none

/-- The next transaction fails on the way to the store: it raises and commits nothing. -/
def blip (error : ε) : Prog σ κ ε α → Option (Prog σ κ ε α)
  | .txn _ _ next => some (next (.error error))
  | _ => none

def site? : Prog σ κ ε α → Option κ
  | .txn site _ _ => some site
  | _ => none

/-- The program has not come to its end yet. -/
def inFlight : Prog σ κ ε α → Bool
  | .pure _ | .raise _ => false
  | _ => true

theorem inFlight_of_step {program rest : Prog σ κ ε α} {state after : σ}
    (stepped : program.step state = some (rest, after)) : program.inFlight = true := by
  cases program with
  | txn site act next => rfl
  | _ => cases stepped

theorem inFlight_of_blip {program rest : Prog σ κ ε α} {error : ε}
    (failed : program.blip error = some rest) : program.inFlight = true := by
  cases program with
  | txn site act next => rfl
  | _ => cases failed

/-- Run alone to the end; `none` when the program does not come back. -/
def run : Prog σ κ ε α → σ → Option (Except ε α) × σ
  | .pure value, state => (some (.ok value), state)
  | .raise error, state => (some (.error error), state)
  | .diverge, state => (none, state)
  | .txn _ act next, state =>
    match act state with
    | .ok (value, after) => (next (.ok value)).run after
    | .error error => (next (.error error)).run state

/-- The sites that a run alone comes to. -/
def sites : Prog σ κ ε α → σ → List κ
  | .txn site act next, state =>
    site :: match act state with
      | .ok (value, after) => (next (.ok value)).sites after
      | .error error => (next (.error error)).sites state
  | _, _ => []

theorem run_bind {program : Prog σ κ ε α} {rest : α → Prog σ κ ε β} {state : σ} :
    (program >>= rest).run state =
      match program.run state with
      | (some (.ok value), after) => (rest value).run after
      | (some (.error error), after) => (some (.error error), after)
      | (none, after) => (none, after) := by
  induction program generalizing state with
  | txn site act next ih =>
    simp only [bind_txn, run]
    cases act state <;> exact ih _
  | _ => rfl

theorem run_handle {program : Prog σ κ ε α} {handler : ε → Prog σ κ ε α} {state : σ} :
    (program.handle handler).run state =
      match program.run state with
      | (some (.error error), after) => (handler error).run after
      | done => done := by
  induction program generalizing state with
  | txn site act next ih =>
    simp only [Prog.handle, run]
    cases act state <;> exact ih _
  | _ => rfl

theorem sites_bind_pure {program : Prog σ κ ε α} {value : α → β} {state : σ} :
    (program >>= fun result => .pure (value result)).sites state = program.sites state := by
  induction program generalizing state with
  | txn site act next ih =>
    simp only [bind_txn, sites]
    cases act state <;> exact congrArg (site :: ·) (ih _)
  | _ => rfl

theorem sites_handle_pure {program : Prog σ κ ε α} {value : ε → α} {state : σ} :
    (program.handle fun error => .pure (value error)).sites state = program.sites state := by
  induction program generalizing state with
  | txn site act next ih =>
    simp only [Prog.handle, sites]
    cases act state <;> exact congrArg (site :: ·) (ih _)
  | _ => rfl

/-- Where it need not wait, a client does what it does without the locks. -/
theorem run_awaiting {waits : κ → Bool} {program : Prog σ κ ε α} {state : σ}
    (free : ∀ site ∈ program.sites state, waits site = false) :
    (program.awaiting waits).run state = program.run state := by
  induction program generalizing state with
  | txn site act next ih =>
    have own : waits site = false := free site (by simp only [sites, List.mem_cons_self])
    simp only [awaiting, own, Bool.false_eq_true, if_false, run]
    cases done : act state with
    | ok pair =>
      obtain ⟨value, after⟩ := pair
      simp only [sites, done, List.forall_mem_cons] at free
      exact ih _ free.2
    | error error =>
      simp only [sites, done, List.forall_mem_cons] at free
      exact ih _ free.2
  | _ => rfl

/-- A client that has to wait does not come back. -/
theorem run_awaiting_waits {waits : κ → Bool} {program : Prog σ κ ε α} {state : σ} {site : κ}
    (comes : site ∈ program.sites state) (waiting : waits site = true) :
    ((program.awaiting waits).run state).1 = none := by
  induction program generalizing state with
  | txn first act next ih =>
    cases own : waits first with
    | true =>
      simp only [awaiting, own, if_true]
      rfl
    | false =>
      simp only [awaiting, own, Bool.false_eq_true, if_false, run]
      simp only [sites, List.mem_cons] at comes
      rcases comes with rfl | later
      · cases own.symm.trans waiting
      · cases done : act state with
        | ok pair =>
          obtain ⟨value, after⟩ := pair
          simp only [done] at later
          exact ih _ later
        | error error =>
          simp only [done] at later
          exact ih _ later
  | _ => cases comes

end Prog

end Transaction
