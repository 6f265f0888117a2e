import Mathlib.Logic.Basic

/-! `db.connection()` on SQLite: one shared connection under a re-entrant lock, and a
depth counter. Code that uses it is a tree of blocks, statements and `try … except`;
the lock keeps other threads out of an outermost block, so that it runs alone. -/

namespace QueueWorkflows.Sqlite

/-- Code of a consumer of `connection()`. A statement that raises has no effect, and
what comes next may depend on what the code reads or on the exception it handles. -/
inductive Code (σ ε : Type) : Type where
  | skip
  | execute (statement : σ → Except ε σ)
  | commit
  | raise (error : ε)
  | query (next : σ → Code σ ε)
  | seq (first second : Code σ ε)
  | handle (body : Code σ ε) (handler : ε → Code σ ε)
  | block (body : Code σ ε)

/-- The shared connection: what is committed, what the connection itself sees, whether a
transaction is open, and `_sqlite_depth`. -/
structure Conn (σ : Type) where
  stored : σ
  current : σ
  inTransaction : Bool := false
  depth : Nat := 0

namespace Conn

variable {σ : Type}

/-- No block is open. -/
def opened (state : σ) : Conn σ where
  stored := state
  current := state

def begin (conn : Conn σ) : Conn σ :=
  { conn with inTransaction := true }

/-- Without an open transaction the connection commits every statement. -/
def write (state : σ) (conn : Conn σ) : Conn σ :=
  if conn.inTransaction then { conn with current := state }
  else { conn with current := state, stored := state }

/-- Ends the open transaction, whoever has begun it. -/
def commit (conn : Conn σ) : Conn σ :=
  { conn with stored := conn.current, inTransaction := false }

def rollback (conn : Conn σ) : Conn σ :=
  { conn with current := conn.stored, inTransaction := false }

end Conn

namespace Code

variable {σ ε : Type}

/-- What the code raises, if anything, and the connection it leaves. -/
def exec : Code σ ε → Conn σ → Option ε × Conn σ
  | .skip, conn => (none, conn)
  | .execute statement, conn =>
    match statement conn.current with
    | .ok state => (none, conn.write state)
    | .error error => (some error, conn)
  | .commit, conn => (none, conn.commit)
  | .raise error, conn => (some error, conn)
  | .query next, conn => (next conn.current).exec conn
  | .seq first second, conn =>
    match first.exec conn with
    | (none, middle) => second.exec middle
    | (some error, middle) => (some error, middle)
  | .handle body handler, conn =>
    match body.exec conn with
    | (none, middle) => (none, middle)
    | (some error, middle) => (handler error).exec middle
  | .block body, conn =>
    let outer := conn.depth == 0
    let entered := if outer then conn.begin else conn
    match body.exec { entered with depth := entered.depth + 1 } with
    | (some error, left) =>
      let ended := if outer then left.rollback else left
      (some error, { ended with depth := ended.depth - 1 })
    | (none, left) =>
      let ended := if outer then left.commit else left
      (none, { ended with depth := ended.depth - 1 })

/-- What code means where `scope` says, for each depth, what a block makes of its body. -/
def meaning (scope : Nat → (σ → Option ε × σ) → σ → Option ε × σ) :
    Code σ ε → Nat → σ → Option ε × σ
  | .skip, _, state => (none, state)
  | .execute statement, _, state =>
    match statement state with
    | .ok after => (none, after)
    | .error error => (some error, state)
  | .commit, _, state => (none, state)
  | .raise error, _, state => (some error, state)
  | .query next, depth, state => (next state).meaning scope depth state
  | .seq first second, depth, state =>
    match first.meaning scope depth state with
    | (none, middle) => second.meaning scope depth middle
    | (some error, middle) => (some error, middle)
  | .handle body handler, depth, state =>
    match body.meaning scope depth state with
    | (none, middle) => (none, middle)
    | (some error, middle) => (handler error).meaning scope depth middle
  | .block body, depth, state => scope depth (body.meaning scope (depth + 1)) state

/-- A transaction of its own: it leaves nothing when it raises. -/
def ownTransaction (body : σ → Option ε × σ) (state : σ) : Option ε × σ :=
  match body state with
  | (none, after) => (none, after)
  | (some error, _) => (some error, state)

/-- The contract taken at its word, for every block. -/
def contract (code : Code σ ε) (state : σ) : Option ε × σ :=
  code.meaning (fun _ => ownTransaction) 0 state

/-- An outermost block is a transaction, and the blocks inside it join it. -/
def joining (depth : Nat) : (σ → Option ε × σ) → σ → Option ε × σ :=
  if depth = 0 then ownTransaction else id

def joined (code : Code σ ε) (state : σ) : Option ε × σ :=
  code.meaning joining 0 state

/-- Nothing commits explicitly. -/
def CommitFree : Code σ ε → Prop
  | .commit => False
  | .query next => ∀ state, (next state).CommitFree
  | .seq first second => first.CommitFree ∧ second.CommitFree
  | .handle body handler => body.CommitFree ∧ ∀ error, (handler error).CommitFree
  | .block body => body.CommitFree
  | _ => True

end Code

/-! ### Blocks join -/

namespace Conn

variable {σ : Type} {conn : Conn σ}

/-- A transaction is open exactly within a block; outside, everything is committed. -/
structure Settled (conn : Conn σ) : Prop where
  open_iff : conn.inTransaction = decide (0 < conn.depth)
  stored : conn.depth = 0 → conn.stored = conn.current

theorem settled_opened (state : σ) : (Conn.opened state).Settled :=
  ⟨rfl, fun _ => rfl⟩

@[simp] theorem depth_write (state : σ) : (conn.write state).depth = conn.depth := by
  unfold write
  split <;> rfl

@[simp] theorem current_write (state : σ) : (conn.write state).current = state := by
  unfold write
  split <;> rfl

@[simp] theorem write_write (first second : σ) :
    (conn.write first).write second = conn.write second := by
  unfold write
  cases conn.inTransaction <;> rfl

/-- Within a block a write stays in the open transaction. -/
theorem Settled.write_within (settled : conn.Settled) (within : 0 < conn.depth) (state : σ) :
    conn.write state = { conn with current := state } := by
  unfold Conn.write
  rw [settled.open_iff, if_pos (decide_eq_true within)]

/-- Outside of all blocks it is committed. -/
theorem Settled.write_outside (settled : conn.Settled) (none : conn.depth = 0) (state : σ) :
    conn.write state = Conn.opened state := by
  unfold Conn.write
  have shut := settled.open_iff
  rw [none] at shut
  rw [shut, if_neg (by simp)]
  cases conn
  cases none
  cases shut
  rfl

theorem Settled.write (settled : conn.Settled) (state : σ) : (conn.write state).Settled := by
  rcases Nat.eq_zero_or_pos conn.depth with none | within
  · rw [settled.write_outside none]
    exact settled_opened state
  · rw [settled.write_within within]
    exact ⟨settled.open_iff, fun none => absurd none (Nat.pos_iff_ne_zero.mp within)⟩

theorem Settled.write_current (settled : conn.Settled) : conn.write conn.current = conn := by
  rcases Nat.eq_zero_or_pos conn.depth with none | within
  · rw [settled.write_outside none]
    have same := settled.stored none
    have shut := settled.open_iff
    rw [none] at shut
    cases conn
    cases same
    cases none
    cases shut
    rfl
  · rw [settled.write_within within]

end Conn

namespace Code

variable {σ ε : Type} {conn : Conn σ}

theorem exec_eq (code : Code σ ε) (free : code.CommitFree) (settled : conn.Settled) :
    code.exec conn = ((code.meaning joining conn.depth conn.current).1,
      conn.write (code.meaning joining conn.depth conn.current).2) := by
  induction code generalizing conn with
  | skip => exact Prod.ext rfl settled.write_current.symm
  | execute statement =>
    simp only [exec, meaning]
    cases statement conn.current with
    | ok state => rfl
    | error error => exact Prod.ext rfl settled.write_current.symm
  | commit => exact free.elim
  | raise error => exact Prod.ext rfl settled.write_current.symm
  | query next ih => exact ih conn.current (free conn.current) settled
  | seq first second ih₁ ih₂ =>
    simp only [exec, meaning]
    rw [ih₁ free.1 settled]
    cases first.meaning joining conn.depth conn.current with
    | mk raised middle =>
      cases raised with
      | none =>
        dsimp only
        rw [ih₂ free.2 (settled.write middle)]
        simp
      | some error => rfl
  | handle body handler ih₁ ih₂ =>
    simp only [exec, meaning]
    rw [ih₁ free.1 settled]
    cases body.meaning joining conn.depth conn.current with
    | mk raised middle =>
      cases raised with
      | none => rfl
      | some error =>
        dsimp only
        rw [ih₂ error (free.2 error) (settled.write middle)]
        simp
  | block body ih =>
    rcases Nat.eq_zero_or_pos conn.depth with none | within
    · have same : conn = Conn.opened conn.current :=
        settled.write_current.symm.trans (settled.write_outside none _)
      generalize conn.current = state at same
      subst same
      have entered : (⟨state, state, true, 1⟩ : Conn σ).Settled := ⟨rfl, nofun⟩
      have left := ih free entered
      have block : joining (Conn.opened state).depth (body.meaning joining 1) state =
          ownTransaction (body.meaning joining 1) state := rfl
      simp only [exec, meaning, Conn.opened, Conn.begin, left, entered.write_within Nat.one_pos,
        beq_self_eq_true, if_true, Nat.zero_add] at block ⊢
      rw [block]
      unfold ownTransaction
      cases body.meaning joining 1 state with
      | mk raised after => cases raised <;> rfl
    · have entered : ({ conn with depth := conn.depth + 1 } : Conn σ).Settled :=
        ⟨by simp [settled.open_iff, within], nofun⟩
      have left := ih free entered
      have inner : (conn.depth == 0) = false := by
        simpa using Nat.pos_iff_ne_zero.mp within
      simp only [exec, meaning, joining, if_neg (Nat.pos_iff_ne_zero.mp within), id, inner,
        Bool.false_eq_true, if_false, left, entered.write_within (Nat.succ_pos _),
        settled.write_within within]
      cases body.meaning joining (conn.depth + 1) conn.current with
      | mk raised after => cases raised <;> rfl

/-- **Nested blocks join the outermost one.** Without an explicit commit, the writes of
all blocks within an outermost block are kept if it exits cleanly, and none if it raises. -/
theorem nested_blocks_join (code : Code σ ε) (free : code.CommitFree) (start : σ) :
    code.exec (Conn.opened start) = ((code.joined start).1, Conn.opened (code.joined start).2) := by
  rw [exec_eq code free (Conn.settled_opened start)]
  refine Prod.ext rfl ?_
  exact (Conn.settled_opened start).write_outside rfl _

end Code

/-! ### A sample -/

namespace Sample

def insert (row : String) : Code (List String) String :=
  .execute fun rows => .ok (rows ++ [row])

/-- The inner block raises, the outer one catches it, writes, and exits cleanly. -/
def caught : Code (List String) String :=
  .block (.seq (.handle (.block (.seq (insert "inner") (.raise "late"))) fun _ => .skip)
    (insert "outer"))

theorem commitFree_caught : caught.CommitFree :=
  ⟨⟨⟨trivial, trivial⟩, fun _ => trivial⟩, trivial⟩

end Sample

theorem caught_block_joins :
    Sample.caught.exec (Conn.opened []) = (none, Conn.opened ["inner", "outer"]) :=
  Code.nested_blocks_join Sample.caught Sample.commitFree_caught []

theorem caught_block_keeps_writes : ¬ ∀ (code : Code (List String) String) (start : List String),
    (code.exec (Conn.opened start)).2.stored = (code.contract start).2 := by
  intro kept
  exact absurd (kept Sample.caught []) (by decide)

end QueueWorkflows.Sqlite
