import QueueWorkflows.Engine.Workflow
import Mathlib.Data.List.DropRight
import Mathlib.Data.Set.Basic

/-! Which file a SQLite engine opens. The environment names it by a bare path or by a URL,
in which three slashes stand before a relative path and four begin an absolute one. -/

namespace QueueWorkflows

open Dispatcher (strip)

def sqlitePrefix : List Char := ['s', 'q', 'l', 'i', 't', 'e', ':', '/', '/']

/-- `sqlite_path`, with the name and the value of the variable that holds the DSN. -/
def sqlitePath (dbUrlEnv : String) (value : Option String) : Except PyErr String :=
  let raw := strip (value.getD "")
  if raw = "" then
    .error ⟨.runtimeError, dbUrlEnv ++ " is not set; cannot open SQLite. " ++
      "Set it to a file path (or sqlite:///path, or :memory:)."⟩
  else if raw = ":memory:" then .ok raw
  else if sqlitePrefix <+: raw.toList then
    let rest := raw.toList.drop sqlitePrefix.length
    if "///".toList <+: rest then .ok (String.ofList (rest.drop 1))
    else if "//".toList <+: rest then .ok (String.ofList (rest.dropWhile (· == '/')))
    else .ok (if rest = [] then ":memory:" else String.ofList rest)
  else .ok raw

/-! ### Files and their names -/

inductive SqliteForm where
  | relative
  | absolute
  | bare
deriving DecidableEq

/-- What a path of this form looks like. -/
def SqliteForm.Fits : SqliteForm → String → Prop
  | .relative, path => path ≠ "" ∧ path.toList.head? ≠ some '/'
  | .absolute, path => path.toList.head? = some '/'
  | .bare, path => path ≠ "" ∧ ¬ sqlitePrefix <+: path.toList

/-- A file, and the form in which the environment names it. -/
structure SqliteFile where
  form : SqliteForm
  path : String
  fits : form.Fits path

namespace SqliteFile

def url (file : SqliteFile) : String :=
  match file.form with
  | .relative | .absolute => "sqlite:///" ++ file.path
  | .bare => file.path

/-- The URL is read as it is meant: no relative path after three slashes, and after four only
one that goes on with another slash. White space around a path is never part of it. -/
def Understood (file : SqliteFile) : Prop :=
  strip file.path = file.path ∧
    match file.form with
    | .relative => False
    | .absolute => "//".toList <+: file.path.toList
    | .bare => True

end SqliteFile

/-! ### White space -/

section Strip

variable {space : Char → Bool} {text front : List Char} {last : Char}

/-- White space after a text does not reach into it. -/
theorem rdropWhile_append (ends : space last = false) :
    (front ++ last :: text).rdropWhile space = front ++ last :: text.rdropWhile space := by
  have kept : (last :: front.reverse).dropWhile space = last :: front.reverse := by
    simp [ends]
  unfold List.rdropWhile
  rw [List.reverse_append, List.reverse_cons, List.append_assoc, List.singleton_append,
    List.dropWhile_append]
  split
  · rename_i blank
    rw [List.isEmpty_iff] at blank
    rw [kept, blank]
    simp
  · simp

/-- `strip` goes by one class of characters, which has neither letters nor slashes. -/
theorem strip_toList : ∃ space : Char → Bool, (space 's' = false ∧ space '/' = false) ∧
    ∀ text, (strip text).toList = (text.toList.dropWhile space).rdropWhile space :=
  ⟨_, ⟨by decide, by decide⟩, fun _ => String.toList_ofList⟩

theorem length_strip_lt {path : String} (changed : strip path ≠ path) :
    (strip path).toList.length < path.toList.length := by
  obtain ⟨space, -, stripped⟩ := strip_toList
  have inner : (strip path).toList.Sublist path.toList := by
    rw [stripped]
    exact (List.rdropWhile_prefix space _).sublist.trans (List.dropWhile_sublist space)
  rcases inner.length_le.lt_or_eq with shorter | same
  · exact shorter
  · exact absurd (String.toList_inj.mp (inner.eq_of_length same)) changed

/-- A URL keeps all of a path but the white space after it. -/
theorem strip_url (path : String) : ∃ trimmed, trimmed <+: path.toList ∧
    (strip ("sqlite:///" ++ path)).toList = sqlitePrefix ++ '/' :: trimmed ∧
      (path.toList.head? = some '/' →
        trimmed = (strip path).toList ∧ trimmed.head? = some '/') := by
  obtain ⟨space, ⟨letter, slash⟩, stripped⟩ := strip_toList
  refine ⟨path.toList.rdropWhile space, List.rdropWhile_prefix space _, ?_, fun rooted => ?_⟩
  · have url : ("sqlite:///" ++ path).toList = sqlitePrefix ++ '/' :: path.toList := by
      rw [String.toList_append]
      rfl
    rw [stripped, url, ← rdropWhile_append slash]
    congr 1
    exact List.dropWhile_cons_of_neg (by simp [letter])
  · obtain ⟨rest, same⟩ := List.head?_eq_some_iff.mp rooted
    have kept := @rdropWhile_append space rest [] '/' slash
    rw [List.nil_append, List.nil_append] at kept
    rw [stripped, same, List.dropWhile_cons_of_neg (by simp [slash]), kept]
    exact ⟨rfl, rfl⟩

end Strip

/-! ### What is opened -/

section Opened

variable {dbUrlEnv path : String}

theorem sqlitePath_prefixed {rest : List Char} {value : String}
    (raw : (strip value).toList = sqlitePrefix ++ rest) :
    sqlitePath dbUrlEnv (some value) =
      if "///".toList <+: rest then .ok (String.ofList (rest.drop 1))
      else if "//".toList <+: rest then .ok (String.ofList (rest.dropWhile (· == '/')))
      else .ok (if rest = [] then ":memory:" else String.ofList rest) := by
  have present : strip value ≠ "" := by
    intro empty
    rw [empty] at raw
    cases raw
  have stored : strip value ≠ ":memory:" := by
    intro memory
    rw [memory] at raw
    cases raw
  have after : (strip value).toList.drop sqlitePrefix.length = rest := by
    rw [raw, List.drop_left]
  unfold sqlitePath
  simp only [Option.getD_some, if_neg present, if_neg stored, after]
  rw [if_pos (raw ▸ List.prefix_append _ _)]

/-- Three slashes and a relative path make an absolute one. -/
theorem sqlitePath_relative (rooted : path.toList.head? ≠ some '/') :
    sqlitePath dbUrlEnv (some ("sqlite:///" ++ path)) ≠ .ok path := by
  obtain ⟨trimmed, within, raw, -⟩ := strip_url path
  have second : trimmed.head? ≠ some '/' := by
    intro slash
    obtain ⟨rest, rfl⟩ := List.head?_eq_some_iff.mp slash
    obtain ⟨more, same⟩ := within
    exact rooted (by rw [← same]; rfl)
  have three : ¬ "///".toList <+: '/' :: trimmed := by
    rintro ⟨more, same⟩
    exact second (by rw [← (List.cons.inj same).2]; rfl)
  have two : ¬ "//".toList <+: '/' :: trimmed := by
    rintro ⟨more, same⟩
    exact second (by rw [← (List.cons.inj same).2]; rfl)
  rw [sqlitePath_prefixed raw, if_neg three, if_neg two, if_neg (by simp)]
  intro same
  apply rooted
  rw [← Except.ok.inj same, String.toList_ofList]
  rfl

/-- Four slashes keep their path if it goes on with another one, and else lose the root. -/
theorem sqlitePath_absolute (rooted : path.toList.head? = some '/') :
    sqlitePath dbUrlEnv (some ("sqlite:///" ++ path)) = .ok path ↔
      strip path = path ∧ "//".toList <+: path.toList := by
  obtain ⟨trimmed, within, raw, keeps⟩ := strip_url path
  obtain ⟨stripped, slash⟩ := keeps rooted
  have kept : strip path = path ↔ trimmed = path.toList := by
    rw [stripped, String.toList_inj]
  rw [sqlitePath_prefixed raw, kept]
  by_cases three : "///".toList <+: '/' :: trimmed
  · have twice : "//".toList <+: trimmed := (List.cons_prefix_cons.mp three).2
    rw [if_pos three, List.drop_one, List.tail_cons, Except.ok.injEq, ← String.toList_inj,
      String.toList_ofList]
    refine ⟨fun same => ⟨same, same ▸ twice⟩, fun named => named.1⟩
  · obtain ⟨rest, rfl⟩ := List.head?_eq_some_iff.mp slash
    have two : "//".toList <+: '/' :: '/' :: rest := ⟨rest, rfl⟩
    rw [if_neg three, if_pos two]
    constructor
    · intro opened
      have relative := List.head?_dropWhile_not (· == '/') ('/' :: '/' :: rest)
      rw [← String.toList_ofList (l := ('/' :: '/' :: rest).dropWhile (· == '/')),
        Except.ok.inj opened, rooted] at relative
      cases relative
    · rintro ⟨same, twice⟩
      rw [← same] at twice
      exact absurd (List.cons_prefix_cons.mpr ⟨rfl, twice⟩) three

/-- A bare path is kept exactly if there is no white space around it. -/
theorem sqlitePath_bare (present : path ≠ "") (bare : ¬ sqlitePrefix <+: path.toList) :
    sqlitePath dbUrlEnv (some path) = .ok path ↔ strip path = path := by
  constructor
  · intro opened
    by_contra changed
    have shorter := length_strip_lt changed
    by_cases url : sqlitePrefix <+: (strip path).toList
    · obtain ⟨rest, raw⟩ := url
      have long : rest.length < path.toList.length := by
        rw [← raw, List.length_append] at shorter
        omega
      rw [sqlitePath_prefixed raw.symm] at opened
      have longer : ∀ opens : List Char, opens.length ≤ rest.length →
          (.ok (String.ofList opens) : Except PyErr String) ≠ .ok path := by
        intro opens least same
        rw [← Except.ok.inj same, String.toList_ofList] at long
        omega
      split at opened
      · exact longer _ (by simp) opened
      · split at opened
        · exact longer _ (List.length_dropWhile_le _ _) opened
        · split at opened
          · have memory := Except.ok.inj opened
            rw [← memory] at changed
            exact changed (by decide +kernel)
          · exact longer _ le_rfl opened
    · unfold sqlitePath at opened
      simp only [Option.getD_some, if_neg url] at opened
      split at opened
      · cases opened
      · split at opened
        · exact changed (Except.ok.inj opened)
        · exact changed (Except.ok.inj opened)
  · intro kept
    unfold sqlitePath
    simp [kept, present, bare]

end Opened

/-- **The file that is opened.** Every file of a set is opened under its own path, and no two of
them are taken for one, exactly if each is named in a way that is understood. -/
theorem sqlite_files_iff (dbUrlEnv : String) (files : Set SqliteFile) :
    ((∀ file ∈ files, sqlitePath dbUrlEnv (some file.url) = .ok file.path) ∧
      ∀ file ∈ files, ∀ other ∈ files,
        sqlitePath dbUrlEnv (some file.url) = sqlitePath dbUrlEnv (some other.url) →
          file.path = other.path) ↔
    ∀ file ∈ files, file.Understood := by
  have opened : ∀ file : SqliteFile,
      sqlitePath dbUrlEnv (some file.url) = .ok file.path ↔ file.Understood := by
    rintro ⟨form, path, fits⟩
    cases form with
    | relative =>
      exact iff_of_false (sqlitePath_relative fits.2) fun understood => understood.2
    | absolute => exact sqlitePath_absolute fits
    | bare =>
      rw [SqliteFile.Understood, and_true]
      exact sqlitePath_bare fits.1 fits.2
  constructor
  · rintro ⟨each, -⟩ file listed
    exact (opened file).mp (each file listed)
  · intro understood
    refine ⟨fun file listed => (opened file).mpr (understood file listed), ?_⟩
    intro file listed other present same
    rw [(opened file).mpr (understood file listed), (opened other).mpr (understood other present)]
      at same
    exact Except.ok.inj same

/-- Three slashes and `queue.db` open `/queue.db`, and four slashes a path below the working
directory. -/
theorem slashes_miscounted :
    sqlitePath "DB_URL" (some "sqlite:///queue.db") = .ok "/queue.db" ∧
      sqlitePath "DB_URL" (some "sqlite:////var/lib/queue.db") = .ok "var/lib/queue.db" ∧
      ¬ ∀ file : SqliteFile, sqlitePath "DB_URL" (some file.url) = .ok file.path := by
  have three : (strip "sqlite:///queue.db").toList = sqlitePrefix ++ "/queue.db".toList := by
    decide +kernel
  have four : (strip "sqlite:////var/lib/queue.db").toList =
      sqlitePrefix ++ "//var/lib/queue.db".toList := by
    decide +kernel
  refine ⟨?_, ?_, fun opens => ?_⟩
  · rw [sqlitePath_prefixed three]
    decide
  · rw [sqlitePath_prefixed four]
    decide
  · have relative : "queue.db".toList.head? ≠ some '/' := by decide
    exact sqlitePath_relative relative (opens ⟨.relative, "queue.db", by decide, relative⟩)

end QueueWorkflows
