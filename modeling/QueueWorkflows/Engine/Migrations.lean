import Mathlib.Data.List.DropRight
import Mathlib.Data.List.Sort
import QueueWorkflows.Base.Locking
import QueueWorkflows.Engine.Broker
import QueueWorkflows.Engine.SqliteBootstrap

/-! The migrations of a Postgres database. A process applies what is pending of the files it was
shipped with, in one transaction, under a lock that it takes first. The files are numbered by
their names; each may be paired with one that reverts it. -/

namespace QueueWorkflows.Migrations

open Locking (Session)
open Sqlite (Migration Ledgered Script runScript)

/-! ### The files of a chain -/

structure File (σ : Type) where
  name : String
  script : Script σ

structure Directory (σ : Type) where
  path : String
  files : List (File σ)

/-- The ASCII characters that `str.strip` takes away. -/
def spaces : List Char :=
  [' ', '\t', '\n', '\x0b', '\x0c', '\r', '\x1c', '\x1d', '\x1e', '\x1f']

def digits (chars : List Char) : Option Int :=
  if chars.isEmpty || !chars.all Char.isDigit then none
  else some (chars.foldl (fun value char => 10 * value + (char.toNat - 48 : Nat)) 0)

/-- `int(text)` of an ASCII text without underscores. -/
def parseInt (text : String) : Except PyErr Int :=
  let bare := (text.toList.dropWhile spaces.contains).rdropWhile spaces.contains
  let value := match bare with
    | '-' :: rest => (digits rest).map Int.neg
    | '+' :: rest => digits rest
    | rest => digits rest
  match value with
  | some value => .ok value
  | none => .error ⟨.valueError, "invalid literal for int() with base 10: '" ++ text ++ "'"⟩

/-- `int(path.stem.split("_", 1)[0])` of a path that ends in `.sql`. -/
def version (name : String) : Except PyErr Int :=
  let chars := name.toList
  let stem := if name == ".sql" then chars else chars.take (chars.length - 4)
  parseInt (String.ofList (stem.takeWhile (· != '_')))

def endsWith (name suffix : String) : Bool :=
  suffix.toList.isSuffixOf name.toList

/-- What `_forward_migrations` does not skip. -/
def isForward (name : String) : Bool :=
  endsWith name ".sql" && !endsWith name ".down.sql" && name != "schema.sql"

section Files

variable {σ : Type}

def File.migration (file : File σ) : Except PyErr (Migration σ) :=
  (version file.name).map fun number => ⟨number, file.script⟩

def forwardMigrations (migrationsDir : Directory σ) : Except PyErr (List (Migration σ)) :=
  ((migrationsDir.files.filter fun file => isForward file.name).insertionSort
    fun first second => first.name ≤ second.name).mapM File.migration

/-- `_down_migration`. -/
def downMigration (migrationsDir : Directory σ) (number : Int) :
    Except PyErr (Option (File σ)) := do
  let downs := migrationsDir.files.filter fun file => endsWith file.name ".down.sql"
  let matching ← downs.filterM fun file => (version file.name).map fun other => other == number
  match matching with
  | [] => return none
  | [file] => return some file
  | files => throw ⟨.runtimeError, "multiple down files for version " ++ toString number ++ ": " ++
      sortedNames (files.map File.name)⟩

end Files

/-! ### The version table -/

/-- `f"{number:04d}"`. -/
def padded (number : Int) : String :=
  let digits := toString number.natAbs
  if number < 0 then "-" ++ String.ofList (List.replicate (3 - digits.length) '0') ++ digits
  else String.ofList (List.replicate (4 - digits.length) '0') ++ digits

def isIdentifier : List Char → Bool
  | [] => false
  | first :: rest =>
    (first.isAlpha || first == '_') && rest.all fun char => char.isAlphanum || char == '_'

/-- `_check_identifier`. The `$` of the pattern also matches before a line feed at the end. -/
def checkIdentifier (name : String) : Except PyErr String :=
  if isIdentifier name.toList ||
      (name.toList.getLast? == some '\n' && isIdentifier name.toList.dropLast) then .ok name
  else .error ⟨.valueError, "invalid version_table identifier '" ++ name ++
    "' — must match ^[A-Za-z_][A-Za-z0-9_]*$ (a plain unqualified SQL identifier)"⟩

section Sessions

variable {σ : Type}

/-- The rows of the version table. -/
def ledgerOf (versionTable : String) (store : Ledgered σ) : Except PyErr (List Int) :=
  match store.ledger with
  | none => .error ⟨.other "UndefinedTable", "relation \"" ++ versionTable ++ "\" does not exist"⟩
  | some versions => .ok versions

/-- `INSERT INTO {version_table} (version) VALUES (…)`. -/
def insertVersion (versionTable : String) (number : Int) (store : Ledgered σ) :
    Except PyErr (Ledgered σ) := do
  let versions ← ledgerOf versionTable store
  if number ∈ versions then
    throw ⟨.integrityError,
      "duplicate key value violates unique constraint \"" ++ versionTable ++ "_pkey\""⟩
  else return { store with ledger := some (versions ++ [number]) }

/-- `DELETE FROM {version_table} WHERE version = …`. -/
def deleteVersion (versionTable : String) (number : Int) (store : Ledgered σ) :
    Except PyErr (Ledgered σ) := do
  let versions ← ledgerOf versionTable store
  return { store with ledger := some (versions.filter (· != number)) }

/-- `_apply_migration_sql`. Postgres takes a file as a whole. -/
def applyMigrationSql (script : Script σ) (store : Ledgered σ) : Except PyErr (Ledgered σ) :=
  (runScript script store.schema).map fun schema => { store with schema }

def execute (statement : Ledgered σ → Except PyErr (Ledgered σ)) :
    Session (Ledgered σ) PyErr Unit :=
  .execute statement (.pure ())

/-- `_applied_versions`. -/
def appliedVersions (versionTable : String) : Session (Ledgered σ) PyErr (List Int) :=
  .query fun store =>
    .ofExcept ((ledgerOf versionTable store).map fun versions => versions.insertionSort (· ≤ ·))

/-- The loop of `bootstrap` over the forward migrations. -/
def applyPending (versionTable : String) (applied : List Int) :
    List (Migration σ) → Session (Ledgered σ) PyErr Unit
  | [] => pure ()
  | migration :: chain =>
    if migration.version ∈ applied then applyPending versionTable applied chain
    else do
      execute (applyMigrationSql migration.script)
      execute (insertVersion versionTable migration.version)
      applyPending versionTable applied chain

/-- `bootstrap` on Postgres. The lock is the advisory lock of the version table. -/
def bootstrap (versionTable : String) (migrationsDir : Directory σ) :
    Session (Ledgered σ) PyErr Unit := do
  let _ ← .ofExcept (checkIdentifier versionTable)
  .lock do
    execute Ledgered.createLedger
    let applied ← appliedVersions versionTable
    let chain ← .ofExcept (forwardMigrations migrationsDir)
    applyPending versionTable applied chain

/-- The loop of `downgrade`, with the versions that it reverts. -/
def revert (versionTable : String) (migrationsDir : Directory σ) (toVersion : Int) :
    List Int → Session (Ledgered σ) PyErr (List Int)
  | [] => pure []
  | number :: rest =>
    if number ≤ toVersion then pure []
    else do
      match ← .ofExcept (downMigration migrationsDir number) with
      | none => .raise ⟨.runtimeError, "cannot revert version " ++ toString number ++ ": no " ++
          padded number ++ "_*.down.sql file found in " ++ migrationsDir.path ++
          ". Add a paired down migration or bump ``to_version``."⟩
      | some file =>
        execute (applyMigrationSql file.script)
        execute (deleteVersion versionTable number)
        let reverted ← revert versionTable migrationsDir toVersion rest
        pure (number :: reverted)

/-- `downgrade`, which takes no lock. -/
def downgrade (versionTable : String) (migrationsDir : Directory σ) (toVersion : Int) :
    Session (Ledgered σ) PyErr (List Int) := do
  let _ ← .ofExcept (checkIdentifier versionTable)
  .query fun store =>
    if store.ledger.isNone then pure []
    else do
      let applied ← appliedVersions versionTable
      revert versionTable migrationsDir toVersion applied.reverse

/-- `current_schema_version`: the highest version, or 0 where there is none. -/
def currentSchemaVersion (store : Ledgered σ) : Int :=
  (store.ledger.getD []).max?.getD 0

/-- `wait_for_schema`, on the clock and the database as its polls find them. -/
def waitForSchema (versionTable : String) (minVersion timeoutS : Int) (began : Time) :
    List (Time × Ledgered σ) → Option (Except PyErr Int)
  | [] => none
  | (now, store) :: polls =>
    let current := currentSchemaVersion store
    if minVersion ≤ current then some (.ok current)
    else if began + seconds timeoutS ≤ now then
      some (.error ⟨.other "TimeoutError", versionTable ++ " " ++ toString current ++
        " did not reach " ++ toString minVersion ++ " within " ++ toString timeoutS ++
        "s — is the orchestrator's bootstrap() running?"⟩)
    else waitForSchema versionTable minVersion timeoutS began polls

/-! ### What a bootstrap does -/

section Runs

open Locking.Session (run_bind_ok run_ofExcept_ok)
open Sqlite (fresh_cons pendingOf scripts versions runScript_append_ok runScript_append_some)

variable {versionTable : String} {migrationsDir : Directory σ} {schema : σ} {ledger : List Int}
  {store after : Ledgered σ} {chain : List (Migration σ)}

theorem execute_ok {statement : Ledgered σ → Except PyErr (Ledgered σ)} {result : Unit} :
    (execute statement).run store = .ok (result, after) ↔ statement store = .ok after := by
  simp only [execute, Session.run]
  cases statement store <;> simp

theorem applyMigrationSql_ok {script : Script σ} :
    applyMigrationSql script store = .ok after ↔
      ∃ reached, runScript script store.schema = .ok reached ∧
        after = { store with schema := reached } := by
  unfold applyMigrationSql
  cases runScript script store.schema with
  | error error => simp [Except.map]
  | ok reached => simp [Except.map, eq_comm]

theorem insertVersion_ok {number : Int} :
    insertVersion versionTable number ⟨schema, some ledger⟩ = .ok after ↔
      number ∉ ledger ∧ after = ⟨schema, some (ledger ++ [number])⟩ := by
  change (if number ∈ ledger then Except.error _ else Except.ok _) = _ ↔ _
  by_cases known : number ∈ ledger
  · simp [known]
  · simp [known, eq_comm]

theorem deleteVersion_ok {number : Int} :
    deleteVersion versionTable number ⟨schema, some ledger⟩ = .ok after ↔
      after = ⟨schema, some (ledger.filter (· != number))⟩ := by
  change Except.ok _ = _ ↔ _
  rw [Except.ok.injEq, eq_comm]

theorem appliedVersions_ok {found : List Int} :
    (appliedVersions versionTable).run ⟨schema, some ledger⟩ = .ok (found, after) ↔
      found = ledger.insertionSort (· ≤ ·) ∧ after = ⟨schema, some ledger⟩ := by
  change (Session.ofExcept (Except.ok _)).run _ = _ ↔ _
  rw [run_ofExcept_ok, Except.ok.injEq, eq_comm]

/-- The database after what is pending of a chain has been applied. -/
def Applies (chain : List (Migration σ)) (store after : Ledgered σ) : Prop :=
  Sqlite.Fresh (pendingOf chain (store.ledger.getD [])) (store.ledger.getD []) ∧
    runScript (scripts (pendingOf chain (store.ledger.getD []))) store.schema = .ok after.schema ∧
    after.ledger =
      some (store.ledger.getD [] ++ versions (pendingOf chain (store.ledger.getD [])))

theorem applyPending_ok {applied : List Int} {result : Unit} :
    (applyPending versionTable applied chain).run ⟨schema, some ledger⟩ = .ok (result, after) ↔
      Sqlite.Fresh (pendingOf chain applied) ledger ∧
        runScript (scripts (pendingOf chain applied)) schema = .ok after.schema ∧
        after.ledger = some (ledger ++ versions (pendingOf chain applied)) := by
  induction chain generalizing schema ledger with
  | nil =>
    have fresh : Sqlite.Fresh (pendingOf ([] : List (Migration σ)) applied) ledger :=
      ⟨List.nodup_nil, fun version member => absurd member List.not_mem_nil⟩
    change Except.ok _ = _ ↔
      Sqlite.Fresh _ _ ∧ Except.ok schema = _ ∧ after.ledger = some (ledger ++ [])
    obtain ⟨schema', ledger'⟩ := after
    simp [fresh, eq_comm]
  | cons migration chain ih =>
    unfold applyPending
    by_cases known : migration.version ∈ applied
    · have skipped : pendingOf (migration :: chain) applied = pendingOf chain applied :=
        List.filter_cons_of_neg (by simpa using known)
      rw [if_pos known, skipped]
      exact ih
    · have next : pendingOf (migration :: chain) applied =
          migration :: pendingOf chain applied :=
        List.filter_cons_of_pos (by simpa using known)
      rw [if_neg known, next, fresh_cons]
      simp only [run_bind_ok, execute_ok, applyMigrationSql_ok]
      constructor
      · rintro ⟨_, _, ⟨middle, ran, rfl⟩, _, _, inserted, rest⟩
        obtain ⟨new, rfl⟩ := insertVersion_ok.mp inserted
        obtain ⟨fresh, went, recorded⟩ := ih.mp rest
        refine ⟨⟨new, fresh⟩, (runScript_append_ok ran).trans went, ?_⟩
        rw [recorded]
        simp [versions]
      · rintro ⟨⟨new, fresh⟩, went, recorded⟩
        obtain ⟨middle, ran, went⟩ := runScript_append_some went
        refine ⟨(), _, ⟨middle, ran, rfl⟩, (), _, insertVersion_ok.mpr ⟨new, rfl⟩, ih.mpr ?_⟩
        refine ⟨fresh, went, recorded.trans ?_⟩
        simp [versions]

theorem fresh_append {done more : List (Migration σ)} : Sqlite.Fresh (done ++ more) ledger ↔
    Sqlite.Fresh done ledger ∧ Sqlite.Fresh more (ledger ++ versions done) := by
  induction done generalizing ledger with
  | nil =>
    have none : Sqlite.Fresh ([] : List (Migration σ)) ledger :=
      ⟨List.nodup_nil, fun version member => absurd member List.not_mem_nil⟩
    simp [none, versions]
  | cons migration done ih =>
    rw [List.cons_append, fresh_cons, fresh_cons, ih, and_assoc, List.append_assoc]
    rfl

theorem pendingOf_sorted : pendingOf chain (ledger.insertionSort (· ≤ ·)) =
    pendingOf chain ledger := by
  simp only [pendingOf, List.mem_insertionSort]

/-- A bootstrap that succeeds has run what was pending of its files, and recorded it. -/
theorem bootstrap_ok {result : Unit} :
    (bootstrap versionTable migrationsDir).run store = .ok (result, after) ↔
      (∃ name, checkIdentifier versionTable = .ok name) ∧
        ∃ chain, forwardMigrations migrationsDir = .ok chain ∧ Applies chain store after := by
  unfold bootstrap
  simp only [run_bind_ok, run_ofExcept_ok, Session.run, execute_ok, Ledgered.createLedger]
  constructor
  · rintro ⟨name, _, ⟨valid, rfl⟩, _, _, ⟨⟩, _, _, found, chain, _, ⟨listed, rfl⟩, ran⟩
    obtain ⟨rfl, rfl⟩ := appliedVersions_ok.mp found
    rw [applyPending_ok, pendingOf_sorted] at ran
    exact ⟨⟨name, valid⟩, chain, listed, ran⟩
  · rintro ⟨⟨name, valid⟩, chain, listed, applies⟩
    refine ⟨name, _, ⟨valid, rfl⟩, (), _, rfl, _, _, appliedVersions_ok.mpr ⟨rfl, rfl⟩, chain, _,
      ⟨listed, rfl⟩, ?_⟩
    rw [applyPending_ok, pendingOf_sorted]
    exact applies

/-! ### Many processes -/

section Processes

open Locking (Server Serial)
open Transaction (Reach)

variable {ι : Type} {directory : ι → Directory σ} {first : Ledgered σ}

theorem bootstrap_guarded : (bootstrap versionTable migrationsDir).Guarded := by
  unfold bootstrap
  cases checkIdentifier versionTable <;> trivial

/-- These processes have between them applied these migrations, in this order. -/
structure Applied (directory : ι → Directory σ) (first last : Ledgered σ)
    (processes : List ι) (applied : List (Migration σ)) : Prop where
  ledger : last.ledger.getD [] = first.ledger.getD [] ++ versions applied
  once : Sqlite.Fresh applied (first.ledger.getD [])
  schema : runScript (scripts applied) first.schema = .ok last.schema
  shipped : ∀ migration ∈ applied, ∃ process ∈ processes, ∃ chain,
    forwardMigrations (directory process) = .ok chain ∧ migration ∈ chain
  complete : ∀ process ∈ processes, ∃ chain, forwardMigrations (directory process) = .ok chain ∧
    ∀ migration ∈ chain, migration.version ∈ last.ledger.getD []

theorem applied_of_serial {order : List (ι × Unit)} {last : Ledgered σ}
    (serial : Serial (fun process => bootstrap versionTable (directory process)) first order last) :
    ∃ applied, Applied directory first last (order.map Prod.fst) applied := by
  induction serial with
  | none =>
    refine ⟨[], by simp [versions], ?_, rfl, ?_, ?_⟩
    · exact ⟨List.nodup_nil, fun version member => absurd member List.not_mem_nil⟩
    · exact fun migration member => absurd member List.not_mem_nil
    · exact fun process member => absurd member List.not_mem_nil
  | @next order state after process value before ran ih =>
    obtain ⟨applied, done⟩ := ih
    obtain ⟨-, chain, listed, fresh, went, recorded⟩ := bootstrap_ok.mp ran
    rw [done.ledger] at fresh went recorded
    have grown : after.ledger.getD [] = state.ledger.getD [] ++
        versions (pendingOf chain (first.ledger.getD [] ++ versions applied)) := by
      rw [recorded, Option.getD_some, done.ledger]
    refine ⟨applied ++ pendingOf chain (first.ledger.getD [] ++ versions applied),
      ?_, ?_, ?_, ?_, ?_⟩
    · rw [recorded, Option.getD_some, versions, versions, versions, List.map_append,
        List.append_assoc]
    · exact fresh_append.mpr ⟨done.once, fresh⟩
    · rw [scripts, List.flatMap_append]
      exact (runScript_append_ok done.schema).trans went
    · intro migration member
      rcases List.mem_append.mp member with old | new
      · obtain ⟨other, ended, ships⟩ := done.shipped migration old
        refine ⟨other, ?_, ships⟩
        rw [List.map_append]
        exact List.mem_append_left _ ended
      · refine ⟨process, ?_, chain, listed, List.mem_of_mem_filter new⟩
        rw [List.map_append]
        exact List.mem_append_right _ (List.mem_singleton_self _)
    · intro other ended
      rw [List.map_append] at ended
      rcases List.mem_append.mp ended with old | new
      · obtain ⟨others, ships, known⟩ := done.complete other old
        refine ⟨others, ships, fun migration member => ?_⟩
        rw [grown]
        exact List.mem_append_left _ (known migration member)
      · cases List.mem_singleton.mp new
        refine ⟨chain, listed, fun migration member => ?_⟩
        rw [grown, done.ledger, List.mem_append, or_iff_not_imp_left]
        intro unknown
        apply List.mem_map_of_mem
        exact List.mem_filter.mpr ⟨member, decide_eq_true unknown⟩

/-- However the bootstraps of any number of processes interleave, and wherever they crash or
fail, each migration that a version was recorded for has been applied exactly once, in one
order and as a whole; a process that has come through finds its whole chain recorded; and one
that fails does so on the database as it stands, not for the others being about. -/
theorem bootstraps_apply_once
    {ok : Server ι (Ledgered σ) PyErr Unit → Locking.Label ι → Bool}
    {server : Server ι (Ledgered σ) PyErr Unit}
    (reached : Reach (Locking.step fun process => bootstrap versionTable (directory process)) ok
      ⟨first, []⟩ server) :
    (∃ applied, Applied directory first server.committed (server.outcomes.map Prod.fst) applied) ∧
      ∀ index later process error, server.advance index = some later →
        later.tasks[index]? = some (process, .failed error) →
          (bootstrap versionTable (directory process)).run server.committed = .error error := by
  obtain ⟨sound, order, serial, complete⟩ :=
    Locking.reach_serial (fun _ => bootstrap_guarded) reached
  constructor
  · obtain ⟨applied, done⟩ := applied_of_serial serial
    have same : ∀ process, process ∈ server.outcomes.map Prod.fst ↔ process ∈ order.map Prod.fst :=
      fun process => (complete.map Prod.fst).mem_iff
    refine ⟨applied, done.ledger, done.once, done.schema, ?_, ?_⟩
    · intro migration member
      obtain ⟨process, ended, ships⟩ := done.shipped migration member
      exact ⟨process, (same process).mpr ended, ships⟩
    · intro process ended
      exact done.complete process ((same process).mp ended)
  · intro index later process error advanced failed
    exact sound.fails (fun _ => bootstrap_guarded) advanced failed

namespace Sample

/-- `CREATE TABLE name`. -/
def create (name : String) (tables : List String) : Except PyErr (List String) :=
  if name ∈ tables then
    .error ⟨.other "DuplicateTable", "relation \"" ++ name ++ "\" already exists"⟩
  else .ok (tables ++ [name])

/-- `DROP TABLE name`. -/
def drop (name : String) (tables : List String) : Except PyErr (List String) :=
  if name ∈ tables then .ok (tables.filter (· != name))
  else .error ⟨.other "UndefinedTable", "table \"" ++ name ++ "\" does not exist"⟩

def files : List (File (List String)) :=
  [⟨"0001_jobs.sql", [create "jobs"]⟩, ⟨"0002_workers.sql", [create "workers"]⟩,
    ⟨"0002_workers.down.sql", [drop "workers"]⟩]

/-- An older release without the second migration, and the one with it. -/
def release (new : Bool) : Directory (List String) :=
  ⟨"migrations", if new then files else files.take 1⟩

/-- The first process dies under the lock. The second has it while the third waits. -/
def racing : List (Locking.Label Bool) :=
  [.start true, .advance 0, .advance 0, .start false, .crash 0, .advance 1, .start true] ++
    List.replicate 5 (.advance 1) ++ List.replicate 6 (.advance 2)

def empty : Server Bool (Ledgered (List String)) PyErr Unit := ⟨⟨[], none⟩, []⟩

def raced : Server Bool (Ledgered (List String)) PyErr Unit :=
  (Transaction.follow (Locking.step fun new => bootstrap "schema_version" (release new))
    (fun _ _ => true) empty racing).getD empty

end Sample

theorem racing_bootstraps_applied : ∃ applied, Applied Sample.release ⟨[], none⟩
    Sample.raced.committed (Sample.raced.outcomes.map Prod.fst) applied :=
  (bootstraps_apply_once (Reach.follow_getD Sample.racing (by decide +kernel))).1

end Processes

/-! ### The way back -/

/-- One file of the directory reverts the migration. -/
def Paired (migrationsDir : Directory σ) (migration : Migration σ) : Prop :=
  ∃ file, downMigration migrationsDir migration.version = .ok (some file) ∧
    ∀ schema reached, runScript migration.script schema = .ok reached →
      runScript file.script reached = .ok schema

/-- Reverting goes from the last migration back to the first, as long as they are above the
version asked for. -/
theorem revert_ok {toVersion : Int} {undone : List (Migration σ)} {reached : σ} {rest : List Int}
    (above : ∀ migration ∈ undone, toVersion < migration.version)
    (below : ∀ version ∈ rest, version ≤ toVersion)
    (paired : ∀ migration ∈ undone, Paired migrationsDir migration)
    (ran : runScript (scripts undone) schema = .ok reached) :
    (revert versionTable migrationsDir toVersion ((versions undone).reverse ++ rest)).run
        ⟨reached, some ledger⟩ =
      .ok ((versions undone).reverse,
        ⟨schema, some (ledger.filter (· ∉ versions undone))⟩) := by
  induction undone using List.reverseRecOn generalizing reached ledger with
  | nil =>
    cases ran
    have kept : ledger.filter (· ∉ versions ([] : List (Migration σ))) = ledger := by
      simp [versions]
    rw [kept]
    cases rest with
    | nil => rfl
    | cons version rest =>
      have low := below version List.mem_cons_self
      simp [versions, revert, low]
  | append_singleton undone last ih =>
    rw [scripts, List.flatMap_append, List.flatMap_singleton] at ran
    obtain ⟨middle, before, went⟩ := runScript_append_some ran
    have member : last ∈ undone ++ [last] := List.mem_append_right _ (List.mem_singleton_self _)
    obtain ⟨file, found, undoes⟩ := paired last member
    have high : ¬ last.version ≤ toVersion := not_le.mpr (above last member)
    have earlier := @ih (ledger.filter (· != last.version)) middle
      (fun migration known => above migration (List.mem_append_left _ known))
      (fun migration known => paired migration (List.mem_append_left _ known)) before
    have split : (versions (undone ++ [last])).reverse ++ rest =
        last.version :: ((versions undone).reverse ++ rest) := by
      simp [versions]
    have whole : (versions (undone ++ [last])).reverse =
        last.version :: (versions undone).reverse := by
      simp [versions]
    have left : ledger.filter (· ∉ versions (undone ++ [last])) =
        (ledger.filter (· != last.version)).filter (· ∉ versions undone) := by
      rw [List.filter_filter]
      apply List.filter_congr
      intro version _
      rw [Bool.eq_iff_iff, Bool.and_eq_true, decide_eq_true_eq, decide_eq_true_eq, bne_iff_ne]
      simp [versions]
    rw [split, whole, left, revert, if_neg high]
    simp only [run_bind_ok, run_ofExcept_ok]
    refine ⟨some file, _, ⟨found, rfl⟩, ?_⟩
    simp only [run_bind_ok, execute_ok, applyMigrationSql_ok]
    exact ⟨(), _, ⟨middle, undoes _ _ went, rfl⟩, (), _, deleteVersion_ok.mpr rfl, _, _, earlier,
      rfl⟩

theorem versions_filter (test : Int → Bool) (migrations : List (Migration σ)) :
    versions (migrations.filter fun migration => test migration.version) =
      (versions migrations).filter test := by
  rw [versions, versions, List.filter_map]
  rfl

/-- An ascending chain is its migrations up to a version, and those above it. -/
theorem chain_split {bound : Int} {chain : List (Migration σ)}
    (ascending : (versions chain).Pairwise (· < ·)) :
    chain = chain.filter (·.version ≤ bound) ++ chain.filter (bound < ·.version) := by
  induction chain with
  | nil => rfl
  | cons migration chain ih =>
    obtain ⟨first, later⟩ := List.pairwise_cons.mp ascending
    by_cases low : migration.version ≤ bound
    · rw [List.filter_cons_of_pos (by simpa using low),
        List.filter_cons_of_neg (by simpa using low), List.cons_append, ← ih later]
    · have all : ∀ other ∈ chain, bound < other.version := fun other member =>
        (not_le.mp low).trans (first other.version (List.mem_map_of_mem member))
      rw [List.filter_cons_of_neg (by simpa using low),
        List.filter_cons_of_pos (by simpa using low), List.filter_eq_nil_iff.mpr, List.nil_append,
        List.filter_eq_self.mpr]
      · exact fun other member => decide_eq_true (all other member)
      · exact fun other member => by simpa using all other member

/-- A ledger that is sorted has the versions above a bound at its end. -/
theorem sorted_split {bound : Int} {low high : List Int} (below : ∀ version ∈ low, version ≤ bound)
    (above : ∀ version ∈ high, bound < version) (ascending : high.Pairwise (· < ·)) :
    (low ++ high).insertionSort (· ≤ ·) = low.insertionSort (· ≤ ·) ++ high := by
  have sorted : (low.insertionSort (· ≤ ·) ++ high).Pairwise (· ≤ ·) := by
    rw [List.pairwise_append]
    refine ⟨List.pairwise_insertionSort _ low, ascending.imp le_of_lt, ?_⟩
    intro one here other there
    rw [List.mem_insertionSort] at here
    exact (below one here).trans (above other there).le
  have same : ((low ++ high).insertionSort (· ≤ ·)).Perm (low.insertionSort (· ≤ ·) ++ high) :=
    (List.perm_insertionSort _ _).trans ((List.perm_insertionSort _ low).symm.append_right high)
  exact same.eq_of_pairwise' (List.pairwise_insertionSort _ _) sorted

/-- On a database that has not passed a version, a release has what the one without its later
migrations has, and then these. -/
theorem pending_split {bound : Int} {applied : List Int}
    (ascending : (versions chain).Pairwise (· < ·)) (old : ∀ version ∈ applied, version ≤ bound) :
    pendingOf chain applied =
      pendingOf (chain.filter (·.version ≤ bound)) applied ++ chain.filter (bound < ·.version) := by
  have later : pendingOf (chain.filter (bound < ·.version)) applied =
      chain.filter (bound < ·.version) := by
    apply List.filter_eq_self.mpr
    intro migration member
    refine decide_eq_true fun recorded => ?_
    exact absurd (old _ recorded) (not_le.mpr (of_decide_eq_true (List.mem_filter.mp member).2))
  conv_lhs => rw [@chain_split _ bound _ ascending]
  rw [pendingOf, List.filter_append]
  exact congrArg _ later

/-- A downgrade undoes what was applied above the version asked for, and no more. -/
theorem downgrade_ok {toVersion : Int} {undone : List (Migration σ)} {applied : List Int}
    {reached : σ} (named : ∃ name, checkIdentifier versionTable = .ok name)
    (ascending : (versions undone).Pairwise (· < ·))
    (above : ∀ version ∈ versions undone, toVersion < version)
    (below : ∀ version ∈ applied, version ≤ toVersion)
    (paired : ∀ migration ∈ undone, Paired migrationsDir migration)
    (ran : runScript (scripts undone) schema = .ok reached) :
    (downgrade versionTable migrationsDir toVersion).run
        ⟨reached, some (applied ++ versions undone)⟩ =
      .ok ((versions undone).reverse, ⟨schema, some applied⟩) := by
  have left : (applied ++ versions undone).filter (· ∉ versions undone) = applied := by
    rw [List.filter_append, List.filter_eq_self.mpr, List.filter_eq_nil_iff.mpr, List.append_nil]
    · exact fun version member => by simpa using member
    · refine fun version member => decide_eq_true fun high => ?_
      exact absurd (above version high) (not_lt.mpr (below version member))
  have reverted : (revert versionTable migrationsDir toVersion ((versions undone).reverse ++
        (applied.insertionSort (· ≤ ·)).reverse)).run
      ⟨reached, some (applied ++ versions undone)⟩ =
        .ok ((versions undone).reverse, ⟨schema, some applied⟩) := by
    rw [revert_ok _ _ paired ran, left]
    · exact fun migration member => above _ (List.mem_map_of_mem member)
    · intro version member
      rw [List.mem_reverse, List.mem_insertionSort] at member
      exact below version member
  rw [← List.reverse_append, ← sorted_split below above ascending] at reverted
  obtain ⟨name, valid⟩ := named
  unfold downgrade
  simp only [run_bind_ok, run_ofExcept_ok, Session.run]
  refine ⟨name, _, ⟨valid, rfl⟩, ?_⟩
  simp only [Option.isNone_some, Bool.false_eq_true, if_false, run_bind_ok]
  exact ⟨_, _, appliedVersions_ok.mpr ⟨rfl, rfl⟩, reverted⟩

/-- After a bootstrap of a release, a downgrade to a version that the database had not passed
before reverts the later migrations, the highest first. It leaves the database as a release
without them would have made it, and a further bootstrap brings it back. -/
theorem downgrade_to_earlier_release {toVersion : Int} {earlier : Directory σ}
    (listed : forwardMigrations migrationsDir = .ok chain)
    (ascending : (versions chain).Pairwise (· < ·))
    (shorter : forwardMigrations earlier = .ok (chain.filter (·.version ≤ toVersion)))
    (paired : ∀ migration ∈ chain, toVersion < migration.version → Paired migrationsDir migration)
    (old : ∀ version ∈ store.ledger.getD [], version ≤ toVersion)
    (ran : (bootstrap versionTable migrationsDir).run store = .ok ((), after)) :
    ∃ back, (downgrade versionTable migrationsDir toVersion).run after =
        .ok (((versions chain).filter (toVersion < ·)).reverse, back) ∧
      (bootstrap versionTable earlier).run store = .ok ((), back) ∧
      (bootstrap versionTable migrationsDir).run back = .ok ((), after) := by
  obtain ⟨named, others, same, fresh, went, recorded⟩ := bootstrap_ok.mp ran
  cases listed.symm.trans same
  obtain ⟨schema, ledger⟩ := store
  obtain ⟨reached, recordings⟩ := after
  obtain ⟨applied, known⟩ : ∃ applied, ledger.getD [] = applied := ⟨_, rfl⟩
  simp only [known] at old fresh went recorded
  have pending := pending_split ascending old
  obtain ⟨low, lows⟩ : ∃ low, pendingOf (chain.filter (·.version ≤ toVersion)) applied = low :=
    ⟨_, rfl⟩
  obtain ⟨high, highs⟩ : ∃ high, chain.filter (toVersion < ·.version) = high := ⟨_, rfl⟩
  rw [lows, highs] at pending
  have new := fresh
  rw [pending] at fresh went recorded
  obtain ⟨begun, rest⟩ := fresh_append.mp fresh
  rw [scripts, List.flatMap_append] at went
  obtain ⟨middle, before, onward⟩ := runScript_append_some went
  have split : applied ++ versions (low ++ high) = applied ++ versions low ++ versions high := by
    simp [versions]
  rw [split] at recorded
  have later : versions high = (versions chain).filter (toVersion < ·) := by
    rw [← highs, versions_filter (toVersion < ·)]
  have below : ∀ version ∈ applied ++ versions low, version ≤ toVersion := by
    intro version member
    rcases List.mem_append.mp member with known | new
    · exact old version known
    · obtain ⟨migration, there, rfl⟩ := List.mem_map.mp new
      rw [← lows] at there
      exact of_decide_eq_true (List.mem_filter.mp (List.mem_of_mem_filter there)).2
  refine ⟨⟨middle, some (applied ++ versions low)⟩, ?_, ?_, ?_⟩
  · rw [recorded, ← later]
    apply downgrade_ok named _ _ below _ onward
    · rw [later]
      exact ascending.filter _
    · intro version member
      rw [later] at member
      exact of_decide_eq_true (List.mem_filter.mp member).2
    · intro migration member
      rw [← highs] at member
      obtain ⟨there, large⟩ := List.mem_filter.mp member
      exact paired migration there (of_decide_eq_true large)
  · refine bootstrap_ok.mpr ⟨named, _, shorter, ?_⟩
    simp only [Applies, known, lows]
    exact ⟨begun, before, trivial⟩
  · have again : pendingOf chain (applied ++ versions low) = high :=
      Sqlite.pendingOf_append new pending
    refine bootstrap_ok.mpr ⟨named, chain, listed, ?_⟩
    simp only [Applies, Option.getD_some, again]
    exact ⟨rest, onward, recorded⟩

def Sample.history : List (Migration (List String)) :=
  [⟨1, [Sample.create "jobs"]⟩, ⟨2, [Sample.create "workers"]⟩]

theorem Sample.forward_release (new : Bool) :
    forwardMigrations (Sample.release new) = .ok (Sample.history.take (if new then 2 else 1)) := by
  cases new <;> rfl

theorem Sample.ascending_history : (versions Sample.history).Pairwise (· < ·) := by decide

theorem Sample.paired_workers :
    Paired (Sample.release true) ⟨2, [Sample.create "workers"]⟩ := by
  refine ⟨⟨"0002_workers.down.sql", [Sample.drop "workers"]⟩, rfl, fun tables reached created => ?_⟩
  simp only [runScript, List.foldlM_cons, List.foldlM_nil, bind_pure] at created ⊢
  unfold Sample.create at created
  split at created
  · cases created
  · rename_i absent
    cases created
    have kept : tables.filter (· != "workers") = tables := by
      apply List.filter_eq_self.mpr
      intro name member
      rw [bne_iff_ne]
      rintro rfl
      exact absent member
    simp [Sample.drop, kept]

theorem downgraded_release : ∃ back,
    (downgrade "schema_version" (Sample.release true) 1).run ⟨["jobs", "workers"], some [1, 2]⟩ =
        .ok (((versions Sample.history).filter (1 < ·)).reverse, back) ∧
      (bootstrap "schema_version" (Sample.release false)).run ⟨[], none⟩ = .ok ((), back) ∧
      (bootstrap "schema_version" (Sample.release true)).run back =
        .ok ((), ⟨["jobs", "workers"], some [1, 2]⟩) := by
  refine downgrade_to_earlier_release (Sample.forward_release true) Sample.ascending_history
    (Sample.forward_release false) ?_ ?_ rfl
  · intro migration member above
    simp only [Sample.history, List.mem_cons, List.not_mem_nil, or_false] at member
    rcases member with rfl | rfl
    · exact absurd above (by decide)
    · exact Sample.paired_workers
  · exact fun version member => absurd member List.not_mem_nil

/-! ### The gate -/

section Gate

open Locking (Server Serial)
open Transaction (Reach)

variable {ι : Type} {directory : ι → Directory σ}

/-- The first migrations of a chain have been applied, and nothing else. -/
structure UpTo (chain : List (Migration σ)) (schema : σ) (count : Nat) (store : Ledgered σ) :
    Prop where
  ledger : store.ledger.getD [] = versions (chain.take count)
  schema : runScript (scripts (chain.take count)) schema = .ok store.schema

theorem UpTo.applies {count more : Nat} (ascending : (versions chain).Pairwise (· < ·))
    (upTo : UpTo chain schema count store) (applies : Applies (chain.take more) store after) :
    UpTo chain schema (max count more) after := by
  obtain ⟨-, went, recorded⟩ := applies
  rw [upTo.ledger] at went recorded
  rcases le_total more count with less | greater
  · have none : pendingOf (chain.take more) (versions (chain.take count)) = [] := by
      apply List.filter_eq_nil_iff.mpr
      intro migration member
      have known : migration.version ∈ versions (chain.take count) :=
        List.mem_map_of_mem (List.take_subset_take_left chain less member)
      simp [known]
    rw [none] at went recorded
    rw [max_eq_left less]
    refine ⟨?_, upTo.schema.trans went⟩
    rw [recorded, Option.getD_some]
    exact List.append_nil _
  · obtain ⟨tail, whole⟩ : ∃ tail, chain.take more = chain.take count ++ tail := by
      obtain ⟨tail, same⟩ := List.take_prefix_take_left greater (l := chain)
      exact ⟨tail, same.symm⟩
    have all : pendingOf (chain.take more) [] = chain.take more :=
      List.filter_eq_self.mpr fun migration _ => decide_eq_true List.not_mem_nil
    have fresh : Sqlite.Fresh (pendingOf (chain.take more) []) [] := by
      rw [all, Sqlite.Fresh, versions, List.map_take]
      exact ⟨(ascending.take).imp ne_of_lt, fun version _ => List.not_mem_nil⟩
    have rest : pendingOf (chain.take more) (versions (chain.take count)) = tail :=
      Sqlite.pendingOf_append fresh (all.trans whole)
    rw [rest] at went recorded
    rw [max_eq_right greater]
    constructor
    · rw [recorded, Option.getD_some, whole, versions, versions, versions, List.map_append]
    · rw [whole, scripts, List.flatMap_append]
      exact (runScript_append_ok upTo.schema).trans went

theorem waitForSchema_ok {minVersion timeoutS current : Int} {began : Time}
    {polls : List (Time × Ledgered σ)}
    (returned : waitForSchema versionTable minVersion timeoutS began polls = some (.ok current)) :
    ∃ poll ∈ polls, currentSchemaVersion poll.2 = current ∧ minVersion ≤ current := by
  induction polls with
  | nil => cases returned
  | cons poll polls ih =>
    unfold waitForSchema at returned
    by_cases reached : minVersion ≤ currentSchemaVersion poll.2
    · rw [if_pos reached] at returned
      cases returned
      exact ⟨poll, List.mem_cons_self, rfl, reached⟩
    · rw [if_neg reached] at returned
      by_cases late : began + seconds timeoutS ≤ poll.1
      · rw [if_pos late] at returned
        cases returned
      · rw [if_neg late] at returned
        obtain ⟨found, member, same⟩ := ih returned
        exact ⟨found, List.mem_cons_of_mem poll member, same⟩

theorem UpTo.serial {order : List (ι × Unit)} {last : Ledgered σ} {count : Nat}
    (ascending : (versions chain).Pairwise (· < ·))
    (releases : ∀ process, ∃ count, forwardMigrations (directory process) = .ok (chain.take count))
    (upTo : UpTo chain schema count store)
    (serial : Serial (fun process => bootstrap versionTable (directory process)) store order last) :
    ∃ more, count ≤ more ∧ UpTo chain schema more last := by
  induction serial with
  | none => exact ⟨count, le_rfl, upTo⟩
  | @next _ _ _ process _ _ ran ih =>
    obtain ⟨more, grown, upTo⟩ := ih
    obtain ⟨-, others, listed, applies⟩ := bootstrap_ok.mp ran
    obtain ⟨length, shipped⟩ := releases process
    cases listed.symm.trans shipped
    exact ⟨_, grown.trans (le_max_left _ _), upTo.applies ascending applies⟩

/-- What the highest version stands for: every migration up to it has been applied. -/
theorem UpTo.mem_take {count : Nat} {migration : Migration σ}
    (ascending : (versions chain).Pairwise (· < ·)) (positive : ∀ version ∈ versions chain, 0 < version)
    (upTo : UpTo chain schema count store) (member : migration ∈ chain)
    (passed : migration.version ≤ currentSchemaVersion store) : migration ∈ chain.take count := by
  rw [← List.take_append_drop count chain, List.mem_append] at member
  rcases member with done | later
  · exact done
  · unfold currentSchemaVersion at passed
    rw [upTo.ledger] at passed
    cases highest : (versions (chain.take count)).max? with
    | none =>
      rw [highest, Option.getD_none] at passed
      have above := positive _ (List.mem_map_of_mem (List.mem_of_mem_drop later))
      exact absurd passed (not_le.mpr above)
    | some top =>
      rw [highest, Option.getD_some] at passed
      rw [← List.take_append_drop count chain, versions, List.map_append,
        List.pairwise_append] at ascending
      have above := ascending.2.2 top (List.max?_mem highest) _ (List.mem_map_of_mem later)
      exact absurd passed (not_le.mpr above)

/-- Releases ship the first so many migrations of one chain. A process that waited for the
schema of one of them goes on from a database that has all of its migrations, and so has the
database ever after, whichever releases are bootstrapped on it. -/
theorem schema_gate_truthful
    {ok : Server ι (Ledgered σ) PyErr Unit → Locking.Label ι → Bool}
    {minVersion timeoutS current : Int} {began : Time} {polls : List (Time × Ledgered σ)}
    (ascending : (versions chain).Pairwise (· < ·))
    (positive : ∀ version ∈ versions chain, 0 < version)
    (releases : ∀ process, ∃ count, forwardMigrations (directory process) = .ok (chain.take count))
    (polled : ∀ poll ∈ polls, ∃ server,
      Reach (Locking.step fun process => bootstrap versionTable (directory process)) ok
        ⟨⟨schema, none⟩, []⟩ server ∧ server.committed = poll.2)
    (returned : waitForSchema versionTable minVersion timeoutS began polls = some (.ok current)) :
    ∃ server, Reach (Locking.step fun process => bootstrap versionTable (directory process)) ok
        ⟨⟨schema, none⟩, []⟩ server ∧
      currentSchemaVersion server.committed = current ∧ minVersion ≤ current ∧
      ∀ later, Reach (Locking.step fun process => bootstrap versionTable (directory process)) ok
          server later →
        ∃ count, later.committed.ledger.getD [] = versions (chain.take count) ∧
          runScript (scripts (chain.take count)) schema = .ok later.committed.schema ∧
          ∀ migration ∈ chain, migration.version ≤ minVersion → migration ∈ chain.take count := by
  obtain ⟨poll, member, same, enough⟩ := waitForSchema_ok returned
  obtain ⟨server, reached, committed⟩ := polled poll member
  rw [← committed] at same
  refine ⟨server, reached, same, enough, fun later onward => ?_⟩
  have none : UpTo chain schema 0 ⟨schema, none⟩ := ⟨rfl, rfl⟩
  obtain ⟨sound, _, serial, -⟩ := Locking.reach_serial (fun _ => bootstrap_guarded) reached
  obtain ⟨count, -, upTo⟩ := none.serial ascending releases serial
  obtain ⟨-, _, serial, -⟩ := sound.reach (fun _ => bootstrap_guarded) onward
  obtain ⟨more, grown, still⟩ := upTo.serial ascending releases serial
  refine ⟨more, still.ledger, still.schema, fun migration there passed => ?_⟩
  apply List.take_subset_take_left chain grown
  apply upTo.mem_take ascending positive there
  rw [same]
  exact passed.trans enough

theorem raced_gate_opened : ∃ server,
    Reach (Locking.step fun new => bootstrap "schema_version" (Sample.release new))
        (fun _ _ => true) Sample.empty server ∧
      currentSchemaVersion server.committed = 2 ∧ 2 ≤ (2 : Int) ∧
      ∀ later, Reach (Locking.step fun new => bootstrap "schema_version" (Sample.release new))
          (fun _ _ => true) server later →
        ∃ count, later.committed.ledger.getD [] = versions (Sample.history.take count) ∧
          runScript (scripts (Sample.history.take count)) [] = .ok later.committed.schema ∧
          ∀ migration ∈ Sample.history, migration.version ≤ 2 →
            migration ∈ Sample.history.take count := by
  have polled : ∀ poll ∈ [((5 : Time), Sample.empty.committed), (6, Sample.raced.committed)],
      ∃ server, Reach (Locking.step fun new => bootstrap "schema_version" (Sample.release new))
        (fun _ _ => true) Sample.empty server ∧ server.committed = poll.2 := by
    intro poll member
    rcases List.mem_cons.mp member with rfl | member
    · exact ⟨_, .start, rfl⟩
    · cases List.mem_singleton.mp member
      exact ⟨_, Reach.follow_getD Sample.racing (by decide +kernel), rfl⟩
  exact @schema_gate_truthful _ "schema_version" [] Sample.history _ Sample.release _ 2 120 2 0 _
    Sample.ascending_history (by decide) (fun new => ⟨_, Sample.forward_release new⟩) polled rfl

end Gate

end Runs

end Sessions

end QueueWorkflows.Migrations
