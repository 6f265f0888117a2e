import QueueWorkflows.Engine.SqliteConnection
import QueueWorkflows.Engine.Value
import Mathlib.Data.List.Nodup

/-! The bootstrap of a SQLite database. It runs in one block of `connection()`, but a script
first commits what the block has begun, and each of its statements then commits alone. -/

namespace QueueWorkflows.Sqlite

/-! ### Crashes -/

/-- Within a block a write is not committed. -/
theorem Conn.Settled.stored_write {σ : Type} {conn : Conn σ} (settled : conn.Settled)
    (within : 0 < conn.depth) (state : σ) : (conn.write state).stored = conn.stored := by
  rw [settled.write_within within]

namespace Code

variable {σ ε : Type}

/-- What is committed whenever the process may die: before and after every statement. -/
def crashes : Code σ ε → Conn σ → List σ
  | .skip, conn | .raise _, conn => [conn.stored]
  | .execute statement, conn =>
    match statement conn.current with
    | .ok state => [conn.stored, (conn.write state).stored]
    | .error _ => [conn.stored]
  | .commit, conn => [conn.stored, conn.current]
  | .query next, conn => (next conn.current).crashes conn
  | .seq first second, conn =>
    first.crashes conn ++
      match first.exec conn with
      | (none, middle) => second.crashes middle
      | (some _, _) => []
  | .handle body handler, conn =>
    body.crashes conn ++
      match body.exec conn with
      | (none, _) => []
      | (some error, middle) => (handler error).crashes middle
  | .block body, conn =>
    let entered := if conn.depth == 0 then conn.begin else conn
    conn.stored :: body.crashes { entered with depth := entered.depth + 1 } ++
      [((Code.block body).exec conn).2.stored]

/-- A process may die before it has done anything. -/
theorem stored_mem_crashes (code : Code σ ε) (conn : Conn σ) : conn.stored ∈ code.crashes conn := by
  induction code generalizing conn with
  | skip | raise | commit | block => simp [crashes]
  | execute statement =>
    simp only [crashes]
    cases statement conn.current <;> simp
  | query next ih => exact ih conn.current conn
  | seq first second ih₁ ih₂ => exact List.mem_append_left _ (ih₁ conn)
  | handle body handler ih₁ ih₂ =>
    rw [crashes]
    exact List.mem_append_left _ (ih₁ conn)

/-- Within a block nothing is committed before its end, unless explicitly. -/
theorem crashes_within {code : Code σ ε} {conn : Conn σ} (free : code.CommitFree)
    (settled : conn.Settled) (within : 0 < conn.depth) :
    ∀ state ∈ code.crashes conn, state = conn.stored := by
  induction code generalizing conn with
  | skip | raise => simp [crashes]
  | execute statement =>
    simp only [crashes]
    cases statement conn.current with
    | ok state => simp [settled.stored_write within]
    | error error => simp
  | commit => exact free.elim
  | query next ih => exact ih conn.current (free conn.current) settled within
  | seq first second ih₁ ih₂ =>
    intro state died
    rw [crashes, exec_eq first free.1 settled] at died
    rcases List.mem_append.mp died with before | after
    · exact ih₁ free.1 settled within state before
    · cases raised : (first.meaning joining conn.depth conn.current).1 with
      | none =>
        rw [raised] at after
        have same := ih₂ free.2 (settled.write _) (by simpa using within) state after
        rw [same, settled.stored_write within]
      | some error =>
        rw [raised] at after
        cases after
  | handle body handler ih₁ ih₂ =>
    intro state died
    rw [crashes, exec_eq body free.1 settled] at died
    rcases List.mem_append.mp died with before | after
    · exact ih₁ free.1 settled within state before
    · cases raised : (body.meaning joining conn.depth conn.current).1 with
      | none =>
        rw [raised] at after
        cases after
      | some error =>
        rw [raised] at after
        have same := ih₂ error (free.2 error) (settled.write _) (by simpa using within)
          state after
        rw [same, settled.stored_write within]
  | block body ih =>
    have inner : (conn.depth == 0) = false := by
      simpa using Nat.pos_iff_ne_zero.mp within
    have entered : ({ conn with depth := conn.depth + 1 } : Conn σ).Settled :=
      ⟨by simp [settled.open_iff, within], nofun⟩
    intro state died
    rw [crashes, exec_eq (.block body) free settled, inner] at died
    simp only [Bool.false_eq_true, if_false, List.cons_append, List.mem_cons, List.mem_append,
      List.not_mem_nil, or_false, settled.stored_write within] at died
    rcases died with rfl | inside | rfl
    · rfl
    · exact ih free entered (Nat.succ_pos _) state inside
    · rfl

end Code

/-! ### The chain -/

section Chain

variable {σ : Type}

abbrev Script (σ : Type) := List (σ → Except PyErr σ)

/-- A forward migration: the version in the name of its file, and the statements in it. -/
structure Migration (σ : Type) where
  version : Int
  script : Script σ

/-- A database, and in it the versions of its version table, once this is created. -/
structure Ledgered (σ : Type) where
  schema : σ
  ledger : Option (List Int) := none

namespace Ledgered

def alter (statement : σ → Except PyErr σ) (store : Ledgered σ) : Except PyErr (Ledgered σ) := do
  let schema ← statement store.schema
  return { store with schema }

/-- `CREATE TABLE IF NOT EXISTS {version_table} (version INTEGER PRIMARY KEY, …)`. -/
def createLedger (store : Ledgered σ) : Except PyErr (Ledgered σ) :=
  .ok { store with ledger := some (store.ledger.getD []) }

/-- `INSERT INTO {version_table} (version) VALUES (…)`. -/
def record (versionTable : String) (version : Int) (store : Ledgered σ) :
    Except PyErr (Ledgered σ) :=
  match store.ledger with
  | none => .error ⟨.other "OperationalError", "no such table: " ++ versionTable⟩
  | some versions =>
    if version ∈ versions then
      .error ⟨.integrityError, "UNIQUE constraint failed: " ++ versionTable ++ ".version"⟩
    else .ok { store with ledger := some (versions ++ [version]) }

end Ledgered

def statements : Script σ → Code (Ledgered σ) PyErr
  | [] => .skip
  | statement :: script => .seq (.execute (Ledgered.alter statement)) (statements script)

/-- What is open is committed first, and no transaction is begun. -/
def executescript (script : Script σ) : Code (Ledgered σ) PyErr :=
  .seq .commit (statements script)

/-- `_apply_migration_sql`. Only Postgres takes all statements at once, within the open
transaction. -/
def applyMigrationSql (engineIsSqlite : Bool) (script : Script σ) : Code (Ledgered σ) PyErr :=
  if engineIsSqlite then executescript script
  else .execute fun store => script.foldlM (fun store statement => store.alter statement) store

/-- The loop over the forward migrations. -/
def applyPending (engineIsSqlite : Bool) (versionTable : String) (applied : List Int) :
    List (Migration σ) → Code (Ledgered σ) PyErr
  | [] => .skip
  | migration :: chain =>
    if migration.version ∈ applied then applyPending engineIsSqlite versionTable applied chain
    else .seq (.seq (applyMigrationSql engineIsSqlite migration.script)
      (.execute (Ledgered.record versionTable migration.version)))
      (applyPending engineIsSqlite versionTable applied chain)

def bootstrap (engineIsSqlite : Bool) (versionTable : String) (chain : List (Migration σ)) :
    Code (Ledgered σ) PyErr :=
  .block (.seq (.execute Ledgered.createLedger) (.query fun store =>
    .seq (applyPending engineIsSqlite versionTable (store.ledger.getD []) chain) .commit))

/-! ### Scripts -/

def runScript (script : Script σ) (schema : σ) : Except PyErr σ :=
  script.foldlM (fun schema statement => statement schema) schema

def scripts (migrations : List (Migration σ)) : Script σ :=
  migrations.flatMap Migration.script

def versions (migrations : List (Migration σ)) : List Int :=
  migrations.map Migration.version

def pendingOf (chain : List (Migration σ)) (applied : List Int) : List (Migration σ) :=
  chain.filter (·.version ∉ applied)

/-- Before a migration that is pending, some of its first statements can run once more, and
what it and those after it then lead to is the same. -/
def Repeatable (pending : List (Migration σ)) (schema : σ) : Prop :=
  ∀ done next later, pending = done ++ next :: later →
    ∀ (count : Nat) (reached : σ), runScript (scripts done) schema = .ok reached →
      runScript (next.script.take count ++ scripts (next :: later)) reached =
        runScript (scripts (next :: later)) reached

theorem runScript_append (first second : Script σ) (schema : σ) :
    runScript (first ++ second) schema = runScript first schema >>= runScript second := by
  unfold runScript
  exact List.foldlM_append

theorem runScript_append_ok {first second : Script σ} {schema reached : σ}
    (ran : runScript first schema = .ok reached) :
    runScript (first ++ second) schema = runScript second reached := by
  rw [runScript_append, ran]
  rfl

/-- A script that succeeds has got through each of its parts. -/
theorem runScript_append_some {first second : Script σ} {schema last : σ}
    (ran : runScript (first ++ second) schema = .ok last) :
    ∃ reached, runScript first schema = .ok reached ∧ runScript second reached = .ok last := by
  rw [runScript_append] at ran
  cases reached : runScript first schema with
  | error error =>
    rw [reached] at ran
    cases ran
  | ok middle =>
    rw [reached] at ran
    exact ⟨middle, rfl, ran⟩

/-! ### Statements outside a transaction -/

/-- Within the block, after a script has committed what was open. -/
def settled (store : Ledgered σ) : Conn (Ledgered σ) where
  stored := store
  current := store
  depth := 1

variable {σ' ε : Type} {conn after : Conn σ'} {first second : Code σ' ε} {state : σ'}

theorem exec_seq : (Code.seq first second).exec conn = (none, after) ↔
    ∃ middle, first.exec conn = (none, middle) ∧ second.exec middle = (none, after) := by
  simp only [Code.exec]
  cases first.exec conn with
  | mk raised middle => cases raised <;> simp

/-- An outermost block commits at its end. -/
theorem block_exec {body : Code σ' ε} {store : σ'} :
    (Code.block body).exec (.opened store) = (none, after) ↔
      ∃ left, body.exec ⟨store, store, true, 1⟩ = (none, left) ∧
        after = { left.commit with depth := left.depth - 1 } := by
  simp only [Code.exec, Conn.opened, Conn.begin, beq_self_eq_true, if_true, Nat.zero_add]
  cases body.exec ⟨store, store, true, 1⟩ with
  | mk raised left => cases raised <;> simp [Conn.commit, eq_comm]

theorem mem_crashes_seq : state ∈ (Code.seq first second).crashes conn ↔
    state ∈ first.crashes conn ∨
      ∃ middle, first.exec conn = (none, middle) ∧ state ∈ second.crashes middle := by
  simp only [Code.crashes, List.mem_append]
  cases first.exec conn with
  | mk raised middle => cases raised <;> simp

variable {schema : σ} {ledger : Option (List Int)} {script : Script σ} {applied : List Int}
  {last : Conn (Ledgered σ)} {survivor : Ledgered σ} {versionTable : String}
  {pending : List (Migration σ)}

theorem alter_some {statement : σ → Except PyErr σ} {store next : Ledgered σ} :
    store.alter statement = .ok next ↔
      ∃ reached, statement store.schema = .ok reached ∧ next = ⟨reached, store.ledger⟩ := by
  unfold Ledgered.alter
  cases statement store.schema with
  | error error =>
    constructor
    · rintro ⟨⟩
    · rintro ⟨_, ⟨⟩, _⟩
  | ok reached =>
    constructor
    · rintro ⟨⟩
      exact ⟨reached, rfl, rfl⟩
    · rintro ⟨_, ⟨⟩, rfl⟩
      rfl

theorem runScript_cons {statement : σ → Except PyErr σ} {reached : σ} :
    runScript (statement :: script) schema = .ok reached ↔
      ∃ middle, statement schema = .ok middle ∧ runScript script middle = .ok reached := by
  simp only [runScript, List.foldlM_cons]
  cases statement schema with
  | error error =>
    constructor
    · rintro ⟨⟩
    · rintro ⟨_, ⟨⟩, _⟩
  | ok middle =>
    constructor
    · intro ran
      exact ⟨middle, rfl, ran⟩
    · rintro ⟨_, ⟨⟩, ran⟩
      exact ran

theorem execute_exec {change : Ledgered σ → Except PyErr (Ledgered σ)} {store : Ledgered σ} :
    (Code.execute change).exec (settled store) = (none, last) ↔
      ∃ next, change store = .ok next ∧ last = settled next := by
  simp only [Code.exec, settled]
  cases change store with
  | error error =>
    constructor
    · rintro ⟨⟩
    · rintro ⟨_, ⟨⟩, _⟩
  | ok next =>
    constructor
    · rintro ⟨⟩
      exact ⟨next, rfl, rfl⟩
    · rintro ⟨_, ⟨⟩, rfl⟩
      rfl

theorem mem_crashes_execute {change : Ledgered σ → Except PyErr (Ledgered σ)}
    {store : Ledgered σ} : survivor ∈ (Code.execute change).crashes (settled store) ↔
      survivor = store ∨ change store = .ok survivor := by
  simp only [Code.crashes, settled]
  cases change store with
  | error error => simp
  | ok next =>
    simp only [Conn.write, List.mem_cons, List.not_mem_nil, or_false, Except.ok.injEq,
      Bool.false_eq_true, if_false, eq_comm]

theorem statements_exec : (statements script).exec (settled ⟨schema, ledger⟩) = (none, last) ↔
    ∃ reached, runScript script schema = .ok reached ∧ last = settled ⟨reached, ledger⟩ := by
  induction script generalizing schema with
  | nil =>
    constructor
    · rintro ⟨⟩
      exact ⟨schema, rfl, rfl⟩
    · rintro ⟨_, ⟨⟩, rfl⟩
      rfl
  | cons statement script ih =>
    simp only [statements, exec_seq, execute_exec, alter_some, runScript_cons]
    constructor
    · rintro ⟨_, ⟨_, ⟨middle, ran, rfl⟩, rfl⟩, rest⟩
      obtain ⟨reached, went, rfl⟩ := ih.mp rest
      exact ⟨reached, ⟨middle, ran, went⟩, rfl⟩
    · rintro ⟨reached, ⟨middle, ran, went⟩, rfl⟩
      exact ⟨_, ⟨_, ⟨middle, ran, rfl⟩, rfl⟩, ih.mpr ⟨reached, went, rfl⟩⟩

theorem mem_crashes_statements :
    survivor ∈ (statements script).crashes (settled ⟨schema, ledger⟩) ↔
      ∃ count reached, runScript (script.take count) schema = .ok reached ∧
        survivor = ⟨reached, ledger⟩ := by
  induction script generalizing schema with
  | nil =>
    simp only [statements, Code.crashes, settled, List.mem_singleton, List.take_nil]
    constructor
    · rintro rfl
      exact ⟨0, schema, rfl, rfl⟩
    · rintro ⟨_, _, ⟨⟩, rfl⟩
      rfl
  | cons statement script ih =>
    simp only [statements, mem_crashes_seq, execute_exec, mem_crashes_execute, alter_some]
    constructor
    · rintro ((rfl | ⟨reached, ran, rfl⟩) | ⟨_, ⟨_, ⟨middle, ran, rfl⟩, rfl⟩, died⟩)
      · exact ⟨0, schema, rfl, rfl⟩
      · exact ⟨1, reached, runScript_cons.mpr ⟨reached, ran, rfl⟩, rfl⟩
      · obtain ⟨count, reached, went, rfl⟩ := ih.mp died
        exact ⟨count + 1, reached, runScript_cons.mpr ⟨middle, ran, went⟩, rfl⟩
    · rintro ⟨count, reached, went, rfl⟩
      cases count with
      | zero =>
        cases went
        exact .inl (.inl rfl)
      | succ count =>
        obtain ⟨middle, ran, went⟩ := runScript_cons.mp went
        exact .inr ⟨_, ⟨_, ⟨middle, ran, rfl⟩, rfl⟩, ih.mpr ⟨count, reached, went, rfl⟩⟩

/-! ### The chain outside a transaction -/

/-- The loop over the migrations that are pending. -/
def applyAll (versionTable : String) : List (Migration σ) → Code (Ledgered σ) PyErr
  | [] => .skip
  | migration :: pending =>
    .seq (.seq (executescript migration.script)
      (.execute (Ledgered.record versionTable migration.version))) (applyAll versionTable pending)

theorem applyPending_eq (chain : List (Migration σ)) :
    applyPending true versionTable applied chain =
      applyAll versionTable (pendingOf chain applied) := by
  induction chain with
  | nil => rfl
  | cons migration chain ih =>
    unfold applyPending pendingOf
    by_cases known : migration.version ∈ applied
    · rw [if_pos known, List.filter_cons_of_neg (by simpa using known)]
      exact ih
    · rw [if_neg known, List.filter_cons_of_pos (by simpa using known), ih]
      rfl

theorem record_some {version : Int} {next : Ledgered σ} :
    Ledgered.record versionTable version ⟨schema, some applied⟩ = .ok next ↔
      version ∉ applied ∧ next = ⟨schema, some (applied ++ [version])⟩ := by
  simp only [Ledgered.record]
  by_cases known : version ∈ applied
  · simp [known]
  · simp [known, eq_comm]

/-- One migration: its script, and its row in the version table. -/
theorem migration_exec {migration : Migration σ} :
    (Code.seq (executescript migration.script)
        (.execute (Ledgered.record versionTable migration.version))).exec
      (settled ⟨schema, some applied⟩) = (none, last) ↔
    migration.version ∉ applied ∧ ∃ reached, runScript migration.script schema = .ok reached ∧
      last = settled ⟨reached, some (applied ++ [migration.version])⟩ := by
  simp only [executescript, exec_seq]
  constructor
  · rintro ⟨_, ⟨_, ⟨⟩, ran⟩, recorded⟩
    obtain ⟨reached, went, rfl⟩ := statements_exec.mp ran
    obtain ⟨_, wrote, rfl⟩ := execute_exec.mp recorded
    obtain ⟨fresh, rfl⟩ := record_some.mp wrote
    exact ⟨fresh, reached, went, rfl⟩
  · rintro ⟨fresh, reached, went, rfl⟩
    refine ⟨_, ⟨settled ⟨schema, some applied⟩, rfl, statements_exec.mpr ⟨reached, went, rfl⟩⟩, ?_⟩
    exact execute_exec.mpr ⟨_, record_some.mpr ⟨fresh, rfl⟩, rfl⟩

theorem mem_crashes_migration {migration : Migration σ} (fresh : migration.version ∉ applied) :
    survivor ∈ (Code.seq (executescript migration.script)
        (.execute (Ledgered.record versionTable migration.version))).crashes
      (settled ⟨schema, some applied⟩) ↔
    (∃ count reached, runScript (migration.script.take count) schema = .ok reached ∧
      survivor = ⟨reached, some applied⟩) ∨
    (∃ reached, runScript migration.script schema = .ok reached ∧
      survivor = ⟨reached, some (applied ++ [migration.version])⟩) := by
  have begun : survivor ∈
        (executescript migration.script).crashes (settled ⟨schema, some applied⟩) ↔
      survivor ∈ (statements migration.script).crashes (settled ⟨schema, some applied⟩) := by
    rw [executescript, mem_crashes_seq]
    constructor
    · rintro (before | ⟨_, ⟨⟩, died⟩)
      · simp only [Code.crashes, settled, List.mem_cons, List.not_mem_nil, or_false, or_self] at before
        rw [before]
        exact Code.stored_mem_crashes _ (settled ⟨schema, some applied⟩)
      · exact died
    · intro died
      exact .inr ⟨_, rfl, died⟩
  rw [mem_crashes_seq, begun, mem_crashes_statements]
  constructor
  · rintro (partly | ⟨_, ran, died⟩)
    · exact .inl partly
    · rw [executescript, exec_seq] at ran
      obtain ⟨_, ⟨⟩, ran⟩ := ran
      obtain ⟨reached, went, rfl⟩ := statements_exec.mp ran
      rcases mem_crashes_execute.mp died with rfl | wrote
      · exact .inl ⟨migration.script.length, reached, by rwa [List.take_length], rfl⟩
      · exact .inr ⟨reached, went, (record_some.mp wrote).2⟩
  · rintro (partly | ⟨reached, went, rfl⟩)
    · exact .inl partly
    · refine .inr ⟨settled ⟨reached, some applied⟩, ?_, ?_⟩
      · exact exec_seq.mpr ⟨_, rfl, statements_exec.mpr ⟨reached, went, rfl⟩⟩
      · exact mem_crashes_execute.mpr (.inr (record_some.mpr ⟨fresh, rfl⟩))

/-- The versions are new to the version table, and no two files have one. -/
def Fresh (pending : List (Migration σ)) (applied : List Int) : Prop :=
  (versions pending).Nodup ∧ ∀ version ∈ versions pending, version ∉ applied

theorem fresh_cons {migration : Migration σ} : Fresh (migration :: pending) applied ↔
    migration.version ∉ applied ∧ Fresh pending (applied ++ [migration.version]) := by
  simp only [Fresh, versions, List.map_cons, List.nodup_cons, List.mem_cons, List.mem_append,
    List.not_mem_nil, or_false, forall_eq_or_imp]
  constructor
  · rintro ⟨⟨unlike, nodup⟩, new, news⟩
    refine ⟨new, nodup, ?_⟩
    rintro version member (old | rfl)
    · exact news version member old
    · exact unlike member
  · rintro ⟨new, nodup, news⟩
    exact ⟨⟨fun member => news _ member (.inr rfl), nodup⟩, new,
      fun version member old => news version member (.inl old)⟩

theorem applyAll_exec : (applyAll versionTable pending).exec (settled ⟨schema, some applied⟩) =
      (none, last) ↔
    Fresh pending applied ∧ ∃ reached, runScript (scripts pending) schema = .ok reached ∧
      last = settled ⟨reached, some (applied ++ versions pending)⟩ := by
  induction pending generalizing schema applied with
  | nil =>
    constructor
    · rintro ⟨⟩
      exact ⟨⟨List.nodup_nil, nofun⟩, schema, rfl, by simp [versions, settled]⟩
    · rintro ⟨_, _, ⟨⟩, rfl⟩
      simp [applyAll, Code.exec, versions]
  | cons migration pending ih =>
    rw [applyAll, exec_seq, fresh_cons]
    simp only [migration_exec]
    constructor
    · rintro ⟨_, ⟨fresh, middle, ran, rfl⟩, rest⟩
      obtain ⟨news, reached, went, rfl⟩ := ih.mp rest
      refine ⟨⟨fresh, news⟩, reached, ?_, by simp [versions]⟩
      exact (runScript_append_ok ran).trans went
    · rintro ⟨⟨fresh, news⟩, reached, went, rfl⟩
      obtain ⟨middle, ran, went⟩ := runScript_append_some went
      refine ⟨_, ⟨fresh, middle, ran, rfl⟩, ih.mpr ⟨news, reached, went, by simp [versions]⟩⟩

/-- What a crash leaves of a chain: all of it, or the migrations before one that is pending,
recorded, and the first statements of this one. -/
def Survives (pending : List (Migration σ)) (schema : σ) (applied : List Int)
    (survivor : Ledgered σ) : Prop :=
  (∃ reached, runScript (scripts pending) schema = .ok reached ∧
    survivor = ⟨reached, some (applied ++ versions pending)⟩) ∨
  (∃ done next later count reached left, pending = done ++ next :: later ∧
    runScript (scripts done) schema = .ok reached ∧
    runScript (next.script.take count) reached = .ok left ∧
    survivor = ⟨left, some (applied ++ versions done)⟩)

theorem mem_crashes_applyAll (fresh : Fresh pending applied) :
    survivor ∈ (applyAll versionTable pending).crashes (settled ⟨schema, some applied⟩) ↔
      Survives pending schema applied survivor := by
  induction pending generalizing schema applied with
  | nil =>
    simp only [applyAll, Code.crashes, settled, List.mem_singleton]
    constructor
    · rintro rfl
      exact .inl ⟨schema, rfl, by simp [versions]⟩
    · rintro (⟨_, ⟨⟩, rfl⟩ | ⟨done, _, _, _, _, _, split, _⟩)
      · simp [versions]
      · simp at split
  | cons migration pending ih =>
    obtain ⟨new, news⟩ := fresh_cons.mp fresh
    simp only [applyAll, @mem_crashes_seq _ _ _ (.seq _ _), migration_exec, mem_crashes_migration new]
    constructor
    · have within : ∀ middle, runScript migration.script schema = .ok middle →
          survivor ∈ (applyAll versionTable pending).crashes
            (settled ⟨middle, some (applied ++ [migration.version])⟩) →
          Survives (migration :: pending) schema applied survivor := by
        intro middle ran died
        rcases (ih news).mp died with ⟨reached, went, rfl⟩ |
          ⟨done, next, later, count, reached, left, rfl, went, part, rfl⟩
        · exact Or.inl ⟨reached, (runScript_append_ok ran).trans went, by simp [versions]⟩
        · exact Or.inr ⟨migration :: done, next, later, count, reached, left, rfl,
            (runScript_append_ok ran).trans went, part, by simp [versions]⟩
      rintro ((⟨count, left, ran, rfl⟩ | ⟨reached, ran, rfl⟩) | ⟨_, ⟨_, middle, ran, rfl⟩, died⟩)
      · exact .inr ⟨[], migration, pending, count, schema, left, rfl, rfl, ran, by simp [versions]⟩
      · exact within reached ran (Code.stored_mem_crashes _ (settled _))
      · exact within middle ran died
    · rintro (⟨reached, went, rfl⟩ |
        ⟨done, next, later, count, reached, left, split, went, part, rfl⟩)
      · obtain ⟨middle, ran, went⟩ := runScript_append_some went
        exact .inr ⟨_, ⟨new, middle, ran, rfl⟩,
          (ih news).mpr (.inl ⟨reached, went, by simp [versions]⟩)⟩
      · cases done with
        | nil =>
          cases split
          cases went
          exact .inl (.inl ⟨count, left, part, by simp [versions]⟩)
        | cons first done =>
          cases split
          obtain ⟨middle, ran, went⟩ := runScript_append_some went
          exact .inr ⟨_, ⟨new, middle, ran, rfl⟩, (ih news).mpr
            (.inr ⟨done, next, later, count, reached, left, rfl, went, part, by simp [versions]⟩)⟩

/-! ### The bootstrap -/

/-- The block has begun a transaction, and in it the version table is created. -/
def begun (schema : σ) (ledger : Option (List Int)) : Conn (Ledgered σ) where
  stored := ⟨schema, ledger⟩
  current := ⟨schema, some (ledger.getD [])⟩
  inTransaction := true
  depth := 1

/-- With the loop the transaction is over: a script commits it, or the end of the loop does. -/
theorem loop_exec (pending : List (Migration σ)) :
    (Code.seq (applyAll versionTable pending) .commit).exec (begun schema ledger) =
      (Code.seq (applyAll versionTable pending) .commit).exec
        (settled ⟨schema, some (ledger.getD [])⟩) := by
  cases pending <;> rfl

theorem mem_crashes_loop :
    survivor ∈ (Code.seq (applyAll versionTable pending) .commit).crashes (begun schema ledger) ↔
      survivor = ⟨schema, ledger⟩ ∨
        survivor ∈ (Code.seq (applyAll versionTable pending) .commit).crashes
          (settled ⟨schema, some (ledger.getD [])⟩) := by
  cases pending with
  | nil =>
    simp only [applyAll, Code.crashes, Code.exec, begun, settled, List.mem_append, List.mem_cons,
      List.not_mem_nil, or_false]
    tauto
  | cons migration pending =>
    -- The commit of the first script is the one place where it matters what was open.
    have same : ∃ rest, (Code.seq (applyAll versionTable (migration :: pending)) .commit).crashes
          (begun schema ledger) =
        ⟨schema, ledger⟩ :: ⟨schema, some (ledger.getD [])⟩ :: rest ∧
      (Code.seq (applyAll versionTable (migration :: pending)) .commit).crashes
          (settled ⟨schema, some (ledger.getD [])⟩) =
        ⟨schema, some (ledger.getD [])⟩ :: ⟨schema, some (ledger.getD [])⟩ :: rest :=
      ⟨_, rfl, rfl⟩
    obtain ⟨rest, open_, shut⟩ := same
    rw [open_, shut]
    simp only [List.mem_cons]
    tauto

/-- The commit at the end of the loop has nothing left to commit. -/
theorem mem_crashes_settled (fresh : Fresh pending applied) :
    survivor ∈ (Code.seq (applyAll versionTable pending) .commit).crashes
      (settled ⟨schema, some applied⟩) ↔ Survives pending schema applied survivor := by
  rw [mem_crashes_seq, mem_crashes_applyAll fresh]
  constructor
  · rintro (survives | ⟨_, looped, died⟩)
    · exact survives
    · obtain ⟨-, reached, went, rfl⟩ := applyAll_exec.mp looped
      simp only [Code.crashes, settled, List.mem_cons, List.not_mem_nil, or_false, or_self] at died
      exact .inl ⟨reached, went, died⟩
  · exact .inl

/-- The body of the block, on a database that it finds. -/
def body (versionTable : String) (chain : List (Migration σ)) : Code (Ledgered σ) PyErr :=
  .seq (.execute Ledgered.createLedger) (.query fun store =>
    .seq (applyPending true versionTable (store.ledger.getD []) chain) .commit)

theorem body_exec (chain : List (Migration σ)) :
    (body versionTable chain).exec ⟨⟨schema, ledger⟩, ⟨schema, ledger⟩, true, 1⟩ =
      (Code.seq (applyAll versionTable (pendingOf chain (ledger.getD []))) .commit).exec
        (settled ⟨schema, some (ledger.getD [])⟩) := by
  rw [← loop_exec, ← applyPending_eq]
  rfl

theorem bootstrap_exec {chain : List (Migration σ)} :
    (bootstrap true versionTable chain).exec (.opened ⟨schema, ledger⟩) = (none, last) ↔
      Fresh (pendingOf chain (ledger.getD [])) (ledger.getD []) ∧
      ∃ reached, runScript (scripts (pendingOf chain (ledger.getD []))) schema = .ok reached ∧
        last = .opened ⟨reached,
          some (ledger.getD [] ++ versions (pendingOf chain (ledger.getD [])))⟩ := by
  change (Code.block (body versionTable chain)).exec _ = _ ↔ _
  rw [block_exec, body_exec]
  constructor
  · rintro ⟨left, ran, rfl⟩
    obtain ⟨_, looped, ⟨⟩⟩ := exec_seq.mp ran
    obtain ⟨fresh, reached, went, rfl⟩ := applyAll_exec.mp looped
    exact ⟨fresh, reached, went, rfl⟩
  · rintro ⟨fresh, reached, went, rfl⟩
    refine ⟨_, exec_seq.mpr ⟨_, applyAll_exec.mpr ⟨fresh, reached, went, rfl⟩, rfl⟩, rfl⟩

theorem mem_crashes_bootstrap {chain : List (Migration σ)} {final : σ}
    (fresh : Fresh (pendingOf chain (ledger.getD [])) (ledger.getD []))
    (ran : runScript (scripts (pendingOf chain (ledger.getD []))) schema = .ok final) :
    survivor ∈ (bootstrap true versionTable chain).crashes (.opened ⟨schema, ledger⟩) ↔
      survivor = ⟨schema, ledger⟩ ∨
        Survives (pendingOf chain (ledger.getD [])) schema (ledger.getD []) survivor := by
  have ended : (bootstrap true versionTable chain).exec (.opened ⟨schema, ledger⟩) = (none, _) :=
    bootstrap_exec.mpr ⟨fresh, final, ran, rfl⟩
  have parts : (bootstrap true versionTable chain).crashes (.opened ⟨schema, ledger⟩) =
      ⟨schema, ledger⟩ :: ([⟨schema, ledger⟩, ⟨schema, ledger⟩] ++
        (Code.seq (applyAll versionTable (pendingOf chain (ledger.getD []))) .commit).crashes
          (begun schema ledger)) ++
      [((bootstrap true versionTable chain).exec (.opened ⟨schema, ledger⟩)).2.stored] := by
    rw [← applyPending_eq]
    rfl
  rw [parts, ended]
  simp only [List.mem_append, List.mem_cons, List.not_mem_nil, or_false, or_self,
    mem_crashes_loop, mem_crashes_settled fresh, Conn.opened]
  constructor
  · rintro ((rfl | rfl | rfl | survives) | rfl)
    · exact .inl rfl
    · exact .inl rfl
    · exact .inl rfl
    · exact .inr survives
    · exact .inr (.inl ⟨final, ran, rfl⟩)
  · rintro (rfl | survives)
    · exact .inl (.inl rfl)
    · exact .inl (.inr (.inr (.inr survives)))

/-! ### Recovery -/

theorem Fresh.rest {done rest : List (Migration σ)} (fresh : Fresh (done ++ rest) applied) :
    Fresh rest (applied ++ versions done) := by
  obtain ⟨nodup, new⟩ := fresh
  rw [versions, List.map_append] at nodup new
  obtain ⟨-, nodup, apart⟩ := List.nodup_append.mp nodup
  refine ⟨nodup, ?_⟩
  intro version member old
  rcases List.mem_append.mp old with old | among
  · exact new version (List.mem_append_right _ member) old
  · exact apart version among version member rfl

theorem pendingOf_append {chain done rest : List (Migration σ)}
    (fresh : Fresh (pendingOf chain applied) applied)
    (split : pendingOf chain applied = done ++ rest) :
    pendingOf chain (applied ++ versions done) = rest := by
  have both : pendingOf chain (applied ++ versions done) =
      (done ++ rest).filter (·.version ∉ versions done) := by
    rw [← split, pendingOf, pendingOf, List.filter_filter]
    congr 1
    funext migration
    simp [Bool.and_comm]
  have nodup := fresh.1
  rw [split, versions, List.map_append] at nodup
  have apart := (List.nodup_append.mp nodup).2.2
  rw [both, List.filter_append, List.filter_eq_nil_iff.mpr, List.filter_eq_self.mpr, List.nil_append]
  · intro migration member
    simp only [decide_not, Bool.not_eq_eq_eq_not, Bool.not_true, decide_eq_false_iff_not]
    intro among
    exact apart _ among _ (List.mem_map_of_mem member) rfl
  · intro migration member
    have among : migration.version ∈ versions done := List.mem_map_of_mem member
    simp [among]

/-- Bootstrapping again after a crash recovers exactly if what a crash repeats is repeatable. -/
theorem recovers_iff {chain : List (Migration σ)} {store final : Ledgered σ}
    (uninterrupted : (bootstrap true versionTable chain).exec (.opened store) =
      (none, .opened final)) :
    (∀ survivor ∈ (bootstrap true versionTable chain).crashes (.opened store),
      (bootstrap true versionTable chain).exec (.opened survivor) = (none, .opened final)) ↔
    Repeatable (pendingOf chain (store.ledger.getD [])) store.schema := by
  obtain ⟨schema, ledger⟩ := store
  obtain ⟨fresh, last, ran, same⟩ := bootstrap_exec.mp uninterrupted
  obtain rfl : final = _ := congrArg Conn.stored same
  -- How a run ends that starts from what a crash left.
  have again : ∀ done rest left, pendingOf chain (ledger.getD []) = done ++ rest →
      ((bootstrap true versionTable chain).exec
          (.opened ⟨left, some (ledger.getD [] ++ versions done)⟩) =
        (none, .opened ⟨last,
          some (ledger.getD [] ++ versions (pendingOf chain (ledger.getD [])))⟩) ↔
      runScript (scripts rest) left = .ok last) := by
    intro done rest left split
    have news : Fresh rest (ledger.getD [] ++ versions done) := by
      rw [split] at fresh
      exact fresh.rest
    have ledgers : ledger.getD [] ++ versions done ++ versions rest =
        ledger.getD [] ++ versions (pendingOf chain (ledger.getD [])) := by
      rw [split, List.append_assoc, versions, versions, versions, List.map_append]
    rw [bootstrap_exec, Option.getD_some, pendingOf_append fresh split, ledgers]
    constructor
    · rintro ⟨-, reached, went, ends⟩
      obtain rfl : last = reached := congrArg (fun conn => conn.stored.schema) ends
      exact went
    · intro went
      exact ⟨news, last, went, rfl⟩
  constructor
  · intro safe done next later split count reached went
    have whole := ran
    rw [split, scripts, List.flatMap_append] at ran
    have rest : runScript (scripts (next :: later)) reached = .ok last :=
      (runScript_append_ok went).symm.trans ran
    have parts : scripts (next :: later) =
        next.script.take count ++ (next.script.drop count ++ scripts later) := by
      rw [← List.append_assoc, List.take_append_drop]
      rfl
    obtain ⟨left, part, -⟩ := runScript_append_some (parts ▸ rest)
    have survives : Survives (pendingOf chain (ledger.getD [])) schema (ledger.getD [])
        ⟨left, some (ledger.getD [] ++ versions done)⟩ :=
      .inr ⟨done, next, later, count, reached, left, split, went, part, rfl⟩
    have recovered := safe _ ((mem_crashes_bootstrap fresh whole).mpr (.inr survives))
    rw [runScript_append_ok part, rest]
    exact (again done (next :: later) left split).mp recovered
  · intro repeatable survivor died
    rcases (mem_crashes_bootstrap fresh ran).mp died with rfl | ⟨reached, went, rfl⟩ |
      ⟨done, next, later, count, reached, left, split, went, part, rfl⟩
    · exact uninterrupted
    · obtain rfl : last = reached := Except.ok.inj (ran.symm.trans went)
      exact (again (pendingOf chain (ledger.getD [])) [] last (List.append_nil _).symm).mpr rfl
    · rw [split, scripts, List.flatMap_append] at ran
      have rest := (runScript_append_ok went).symm.trans ran
      refine (again done (next :: later) left split).mpr ?_
      rw [← runScript_append_ok part, repeatable done next later split count reached went]
      exact rest

/-! ### Within one transaction -/

theorem applyPending_commitFree (chain : List (Migration σ)) :
    (applyPending false versionTable applied chain).CommitFree := by
  induction chain with
  | nil => trivial
  | cons migration chain ih =>
    unfold applyPending
    split
    · exact ih
    · exact ⟨⟨trivial, trivial⟩, ih⟩

/-- Where a script joins the open transaction, a crash leaves all of a bootstrap or nothing. -/
theorem bootstrap_all_or_nothing {chain : List (Migration σ)} {store final : Ledgered σ}
    (uninterrupted : (bootstrap false versionTable chain).exec (.opened store) =
      (none, .opened final)) :
    ∀ survivor ∈ (bootstrap false versionTable chain).crashes (.opened store),
      survivor = store ∨ survivor = final := by
  obtain ⟨schema, ledger⟩ := store
  have opened : (begun schema ledger).Settled := ⟨rfl, nofun⟩
  have parts : (bootstrap false versionTable chain).crashes (.opened ⟨schema, ledger⟩) =
      ⟨schema, ledger⟩ :: ([⟨schema, ledger⟩, ⟨schema, ledger⟩] ++
        (Code.seq (applyPending false versionTable (ledger.getD []) chain) .commit).crashes
          (begun schema ledger)) ++
      [((bootstrap false versionTable chain).exec (.opened ⟨schema, ledger⟩)).2.stored] := rfl
  intro survivor died
  rw [parts, uninterrupted] at died
  simp only [List.mem_append, List.mem_cons, List.not_mem_nil, or_false, or_self, Conn.opened,
    mem_crashes_seq] at died
  have free : (applyPending false versionTable (ledger.getD []) chain).CommitFree :=
    applyPending_commitFree chain
  rcases died with (rfl | rfl | within | ⟨left, looped, ended⟩) | rfl
  · exact .inl rfl
  · exact .inl rfl
  · exact .inl (Code.crashes_within free opened Nat.one_pos _ within)
  · obtain ⟨_, ran, whole⟩ := block_exec.mp uninterrupted
    have ran : (Code.seq (applyPending false versionTable (ledger.getD []) chain) .commit).exec
        (begun schema ledger) = (none, _) := ran
    obtain ⟨_, again, ⟨⟩⟩ := exec_seq.mp ran
    obtain rfl : left = _ := congrArg Prod.snd (looped.symm.trans again)
    have kept : left.stored = ⟨schema, ledger⟩ := by
      rw [Code.exec_eq _ free opened] at looped
      obtain ⟨-, same⟩ := Prod.mk.inj looped
      rw [← same, opened.stored_write Nat.one_pos]
      rfl
    have last : left.current = final := (congrArg Conn.stored whole).symm
    simpa only [Code.crashes, List.mem_cons, List.not_mem_nil, or_false, kept, last] using ended
  · exact .inr rfl

end Chain

namespace Sample

/-- A bare `ADD COLUMN`, which cannot run twice. -/
def addColumn (name : String) (columns : List String) : Except PyErr (List String) :=
  if name ∈ columns then
    .error ⟨.other "OperationalError", "duplicate column name: " ++ name⟩
  else .ok (columns ++ [name])

def twoColumns : List (Migration (List String)) :=
  [{ version := 15, script := [addColumn "device", addColumn "slots"] }]

theorem twoColumns_bootstrap :
    (bootstrap true "schema_version" twoColumns).exec (.opened ⟨["id"], none⟩) =
      (none, .opened ⟨["id", "device", "slots"], some [15]⟩) := by
  rfl

end Sample

theorem twoColumns_recover_iff :
    (∀ survivor ∈
        (bootstrap true "schema_version" Sample.twoColumns).crashes (.opened ⟨["id"], none⟩),
      (bootstrap true "schema_version" Sample.twoColumns).exec (.opened survivor) =
        (none, .opened ⟨["id", "device", "slots"], some [15]⟩)) ↔
    Repeatable (pendingOf Sample.twoColumns []) ["id"] :=
  recovers_iff Sample.twoColumns_bootstrap

/-- A crash between two columns leaves the first, and adding it again fails. -/
theorem crash_between_columns :
    (⟨["id", "device"], some []⟩ : Ledgered (List String)) ∈
      (bootstrap true "schema_version" Sample.twoColumns).crashes (.opened ⟨["id"], none⟩) ∧
    ((bootstrap true "schema_version" Sample.twoColumns).exec
      (.opened ⟨["id", "device"], some []⟩)).1 =
        some ⟨.other "OperationalError", "duplicate column name: device"⟩ := by
  constructor
  · exact List.mem_iff_getElem?.mpr ⟨6, rfl⟩
  · rfl

end QueueWorkflows.Sqlite
