import QueueWorkflows.Engine.Dispatcher
import QueueWorkflows.Engine.Refs

/-! What the callers of `resolve_ref` have to expect. `KeyError` and `TypeError` are taken
as "unresolved", and every value as JSON. -/

namespace QueueWorkflows

/-- An error that the callers take as "unresolved". -/
def PyErr.Expected (error : PyErr) : Prop :=
  error.kind = .keyError ∨ error.kind = .typeError

/-- A value that `json.dumps` takes. -/
def Found.IsJson (py : Python) (found : Found py.Object) : Prop :=
  ∃ value, found.dumps py = .ok value

namespace Refs

/-- A result that is good, or an expected error. -/
def Settles {α : Type} (good : α → Prop) : Except PyErr α → Prop
  | .ok value => good value
  | .error error => error.Expected

/-- An expected error. -/
def Refused {α : Type} (outcome : Except PyErr α) : Prop :=
  ∃ error, outcome = .error error ∧ error.Expected

/-- One part is evaluated, then the rest: a part that went wrong without raising goes
unnoticed where the rest raises. -/
theorem settles_both {α β γ : Type} {first : Except PyErr α} {rest : Except PyErr β}
    {join : α → β → γ} {goodFirst : α → Prop} {goodRest : β → Prop} {good : γ → Prop}
    (joined : ∀ value others, good (join value others) ↔ goodFirst value ∧ goodRest others) :
    Settles good (first >>= fun value => rest >>= fun others => pure (join value others)) ↔
      (Settles goodFirst first ∧ ((∃ value, first = .ok value) → Settles goodRest rest)) ∨
        ((∃ value, first = .ok value ∧ ¬ goodFirst value) ∧ Refused rest) := by
  cases first with
  | error error => simp [Settles, bind, Except.bind]
  | ok value =>
    cases rest with
    | error error =>
      by_cases fine : goodFirst value <;> simp [Settles, Refused, bind, Except.bind, fine]
    | ok others =>
      simp [Settles, Refused, bind, Except.bind, pure, Except.pure, joined]

variable (py : Python)

/-! ### The conditions -/

/-- As far as `_match` reads the spec, each key has an operator it knows, and no pattern is
malformed. -/
def TameSpec (item : Found py.Object) : Dict → Prop
  | [] => True
  | (key, expected) :: rest =>
    match fieldOp key with
    | none => False
    | some (field, op) =>
      let actual := fieldOf py item field
      if op = "eq" then actual.same py expected = true → TameSpec item rest
      else if op = "matches" then
        actual.isNone = false → match py.search expected (py.strOf actual) with
          | .ok found => found = true → TameSpec item rest
          | .error error => error.Expected
      else False

/-- Items are kept or not by a tame spec, and those kept are JSON. -/
def TameFilter (spec : Json) : List (Found py.Object) → Prop
  | [] => True
  | item :: rest =>
    match spec with
    | .obj fields =>
      (TameSpec py item fields ∧ (matchSpec py item fields = .ok true → item.IsJson py) ∧
          ((∃ kept, matchSpec py item fields = .ok kept) → TameFilter spec rest)) ∨
        ((matchSpec py item fields = .ok true ∧ ¬ item.IsJson py) ∧
          Refused (filterItems py spec rest))
    | _ => False

def TameResult (fields : Dict) (result : Found py.Object) : Prop :=
  match Dict.get? fields "$filter" with
  | some spec => ∀ items, result.items? = some items → TameFilter py spec items
  | none => Dict.get? fields "$eq" = none → Dict.get? fields "$ne" = none → result.IsJson py

variable (context : Dict)

/-- The path is a text, and where it leads somewhere the result is tame. -/
def TameFrom (fields : Dict) : Json → Prop
  | .str path => ∀ result, dig py path (.json (.obj context)) (segments path) = .ok result →
      TameResult py fields result
  | _ => False

/-- `$coalesce` goes past a candidate. -/
def Passed (candidate : Json) : Prop :=
  match evaluate py context candidate with
  | .ok found => found.isNone = true
  | .error error => error.kind = .keyError

mutual

/-- Every part of the expression that its evaluation comes to is tame. -/
def Tame : Json → Prop
  | .obj fields =>
    match Dict.get? fields "$value" with
    | some _ => True
    | none =>
      match tameCoalesce fields with
      | some tame => tame
      | none =>
        match Dict.get? fields "$from" with
        | some path => TameFrom py context fields path
        | none => TameFields fields
  | _ => True
termination_by structural value => value

def tameCoalesce : List (String × Json) → Option Prop
  | [] => none
  | (key, value) :: rest =>
    if key = "$coalesce" then
      match value with
      | .arr candidates => some (TameCandidates candidates)
      | _ => some True
    else tameCoalesce rest
termination_by structural fields => fields

def TameCandidates : List Json → Prop
  | [] => True
  | candidate :: rest => Tame candidate ∧ (Passed py context candidate → TameCandidates rest)
termination_by structural candidates => candidates

/-- A value that is no JSON goes unnoticed before an entry that raises. -/
def TameFields : List (String × Json) → Prop
  | [] => True
  | (_, value) :: rest =>
    (Tame value ∧ ((∃ found, evaluate py context value = .ok found) → TameFields rest)) ∨
      ((∃ found, evaluate py context value = .ok found ∧ ¬ found.IsJson py) ∧
        Refused (evaluateFields py context rest))
termination_by structural fields => fields

end

/-! ### Values -/

section

variable {py} {context}

theorem isJson_list {items : List (Found py.Object)} :
    (Found.list items).IsJson py ↔ ∀ item ∈ items, item.IsJson py := by
  have dumped : (Found.list items).IsJson py ↔
      ∃ values, Found.dumpsItems py items = .ok values := by
    unfold Found.IsJson
    simp only [Found.dumps]
    cases Found.dumpsItems py items <;> simp [Except.map]
  rw [dumped]
  clear dumped
  induction items with
  | nil => simp [Found.dumpsItems]
  | cons item rest ih =>
    rw [List.forall_mem_cons]
    refine Iff.trans ?_ (and_congr_right fun _ => ih)
    simp only [Found.dumpsItems, Found.IsJson]
    cases item.dumps py <;> cases Found.dumpsItems py rest <;>
      simp [bind, Except.bind, pure, Except.pure]

theorem isJson_dict {entries : List (String × Found py.Object)} :
    (Found.dict entries).IsJson py ↔ ∀ entry ∈ entries, entry.2.IsJson py := by
  have dumped : (Found.dict entries).IsJson py ↔
      ∃ fields, Found.dumpsEntries py entries = .ok fields := by
    unfold Found.IsJson
    simp only [Found.dumps]
    cases Found.dumpsEntries py entries <;> simp [Except.map]
  rw [dumped]
  clear dumped
  induction entries with
  | nil => simp [Found.dumpsEntries]
  | cons entry rest ih =>
    rw [List.forall_mem_cons]
    refine Iff.trans ?_ (and_congr_right fun _ => ih)
    simp only [Found.dumpsEntries, Found.IsJson]
    cases entry.2.dumps py <;> cases Found.dumpsEntries py rest <;>
      simp [bind, Except.bind, pure, Except.pure]

theorem isJson_json {value : Json} : (Found.json value : Found py.Object).IsJson py :=
  ⟨value, rfl⟩

/-! ### The parts -/

theorem matchSpec_settles {item : Found py.Object} {spec : Dict} :
    Settles (fun _ => True) (matchSpec py item spec) ↔ TameSpec py item spec := by
  induction spec with
  | nil => simp [matchSpec, TameSpec, Settles]
  | cons entry rest ih =>
    obtain ⟨key, expected⟩ := entry
    unfold matchSpec TameSpec
    cases fieldOp key with
    | none => simp [Settles, PyErr.Expected]
    | some parts =>
      obtain ⟨field, op⟩ := parts
      dsimp only
      split
      · split
        · rename_i same
          simp [same, ih]
        · rename_i other
          simp [other, Settles]
      · split
        · cases missing : (fieldOf py item field).isNone with
          | true => simp [Settles]
          | false =>
            cases py.search expected (py.strOf (fieldOf py item field)) with
            | error error => simp [Settles, bind, Except.bind]
            | ok hit =>
              cases hit with
              | false => simp [Settles, bind, Except.bind, pure, Except.pure]
              | true => simpa [bind, Except.bind] using ih
        · simp [Settles, PyErr.Expected]

theorem filterItems_settles {spec : Json} {items : List (Found py.Object)} :
    Settles (fun kept => ∀ item ∈ kept, item.IsJson py) (filterItems py spec items) ↔
      TameFilter py spec items := by
  induction items with
  | nil => simp [filterItems, TameFilter, Settles]
  | cons item rest ih =>
    cases spec with
    | obj fields =>
      have both := @settles_both Bool _ _ (matchSpec py item fields)
        (filterItems py (.obj fields) rest) (fun keep others => if keep then item :: others else others)
        (fun keep => keep = true → item.IsJson py) (fun kept => ∀ other ∈ kept, other.IsJson py)
        (fun kept => ∀ other ∈ kept, other.IsJson py)
        (by intro keep others; cases keep <;> simp)
      unfold filterItems TameFilter
      dsimp only
      rw [both, ih, ← matchSpec_settles]
      cases matchSpec py item fields with
      | error error => simp [Settles]
      | ok keep => cases keep <;> simp [Settles]
    | _ => simp [filterItems, TameFilter, Settles, PyErr.Expected]

theorem applyTo_settles {path : String} {fields : Dict} {result : Found py.Object} :
    Settles (Found.IsJson py) (applyTo py path fields result) ↔ TameResult py fields result := by
  unfold applyTo TameResult
  cases Dict.get? fields "$filter" with
  | some spec =>
    cases result.items? with
    | none => simp [Settles, PyErr.Expected]
    | some items =>
      have same : Settles (Found.IsJson py) ((filterItems py spec items).map .list) ↔
          Settles (fun kept => ∀ item ∈ kept, item.IsJson py) (filterItems py spec items) := by
        cases filterItems py spec items with
        | error error => rfl
        | ok kept => exact isJson_list
      simp [same, filterItems_settles]
  | none =>
    cases Dict.get? fields "$eq" <;> cases Dict.get? fields "$ne" <;>
      simp [Settles, isJson_json]

theorem dig_error {path : String} {cur : Found py.Object} {parts : List String} {error : PyErr}
    (raised : dig py path cur parts = .error error) : error.kind = .keyError := by
  induction parts generalizing cur with
  | nil => cases raised
  | cons part rest ih =>
    unfold dig at raised
    split at raised
    · exact ih raised
    · cases raised
      rfl

theorem resolveFrom_settles {fields : Dict} {path : Json} :
    Settles (Found.IsJson py) (resolveFrom py context fields path) ↔
      TameFrom py context fields path := by
  cases path with
  | str path =>
    simp only [resolveFrom, TameFrom]
    cases found : dig py path (.json (.obj context)) (segments path) with
    | error error => simp [Settles, bind, Except.bind, PyErr.Expected, dig_error found]
    | ok result => simp [bind, Except.bind, applyTo_settles]
  | _ => simp [resolveFrom, TameFrom, Settles, PyErr.Expected]

theorem firstResolved_settles {candidates : List Json}
    (parts : ∀ candidate ∈ candidates, Settles (Found.IsJson py) (evaluate py context candidate) ↔
      Tame py context candidate) :
    Settles (fun found => ∀ value, found = some value → value.IsJson py)
        (firstResolved py context candidates) ↔ TameCandidates py context candidates := by
  induction candidates with
  | nil => simp [firstResolved, TameCandidates, Settles]
  | cons candidate rest ih =>
    have others := ih fun other member => parts other (List.mem_cons_of_mem _ member)
    unfold TameCandidates firstResolved
    rw [← others, ← parts candidate List.mem_cons_self, Passed]
    cases evaluate py context candidate with
    | ok found =>
      cases none : found.isNone with
      | false => simp [Settles, none]
      | true =>
        have null : found.IsJson py := by
          cases found with
          | json value => exact isJson_json
          | _ => cases none
        simp [Settles, none, null]
    | error error =>
      by_cases missing : error.kind = .keyError
      · simp [Settles, missing, PyErr.Expected]
      · simp [Settles, missing]

theorem coalesce_settles {fields : Dict}
    (parts : ∀ entry ∈ fields, ∀ candidates, entry.2 = .arr candidates →
      ∀ candidate ∈ candidates, Settles (Found.IsJson py) (evaluate py context candidate) ↔
        Tame py context candidate) :
    (coalesce py context fields).map (Settles fun found => ∀ value, found = some value →
      value.IsJson py) = tameCoalesce py context fields := by
  induction fields with
  | nil => rfl
  | cons entry rest ih =>
    obtain ⟨key, value⟩ := entry
    have others := ih fun entry member => parts entry (List.mem_cons_of_mem _ member)
    unfold coalesce tameCoalesce
    split
    · cases value with
      | arr candidates =>
        have first := parts (key, .arr candidates) List.mem_cons_self candidates rfl
        simp [firstResolved_settles first]
      | _ => simp [Settles, PyErr.Expected]
    · exact others

theorem evaluateFields_settles {fields : Dict}
    (parts : ∀ entry ∈ fields, Settles (Found.IsJson py) (evaluate py context entry.2) ↔
      Tame py context entry.2) :
    Settles (fun entries => ∀ entry ∈ entries, entry.2.IsJson py) (evaluateFields py context fields) ↔
      TameFields py context fields := by
  induction fields with
  | nil => simp [evaluateFields, TameFields, Settles]
  | cons entry rest ih =>
    obtain ⟨key, value⟩ := entry
    have others := ih fun entry member => parts entry (List.mem_cons_of_mem _ member)
    unfold evaluateFields TameFields
    rw [← others, ← parts (key, value) List.mem_cons_self]
    exact settles_both fun found values => by simp

/-- The evaluation of an expression ends as its callers expect exactly where the expression is
tame. -/
theorem evaluate_settles (value : Json) :
    Settles (Found.IsJson py) (evaluate py context value) ↔ Tame py context value := by
  -- The candidates of a `$coalesce` lie two levels below it, so the items of a list go along.
  suffices all : (Settles (Found.IsJson py) (evaluate py context value) ↔ Tame py context value) ∧
      ∀ items, value = .arr items → ∀ item ∈ items,
        Settles (Found.IsJson py) (evaluate py context item) ↔ Tame py context item from all.1
  induction value using Json.nested_induction with
  | scalar value noList noDict =>
    refine ⟨?_, fun items same => absurd same (noList items)⟩
    cases value with
    | obj fields => exact absurd rfl (noDict fields)
    | _ => simp [evaluate, Tame, Settles, isJson_json]
  | arr items inside =>
    refine ⟨by simp [evaluate, Tame, Settles, isJson_json], ?_⟩
    rintro others ⟨⟩ item member
    exact (inside item member).1
  | obj fields inside =>
    refine ⟨?_, by rintro _ ⟨⟩⟩
    have candidates := coalesce_settles fun entry member => (inside entry member).2
    have entries := evaluateFields_settles fun entry member => (inside entry member).1
    unfold evaluate Tame
    rw [← candidates]
    cases Dict.get? fields "$value" with
    | some literal => simp [Settles, isJson_json]
    | none =>
      cases coalesce py context fields with
      | some first =>
        cases first with
        | error error => simp [Settles, bind, Except.bind]
        | ok found =>
          cases found with
          | some resolved => simp [Settles, bind, Except.bind, pure, Except.pure]
          | none =>
            cases Dict.get? fields "$default" <;>
              simp [Settles, bind, Except.bind, pure, Except.pure, isJson_json, throw, throwThe,
                MonadExceptOf.throw, PyErr.Expected]
      | none =>
        cases Dict.get? fields "$from" with
        | some path => exact resolveFrom_settles
        | none =>
          simp only [Option.map_none]
          rw [← entries]
          cases evaluateFields py context fields with
          | error error => simp [Settles, bind, Except.bind]
          | ok values => simp [Settles, bind, Except.bind, pure, Except.pure, isJson_dict]

theorem resolveRef_expected {value : Json} {error : PyErr} (tame : Tame py context value)
    (raised : resolveRef py context value = .error error) : error.Expected := by
  have ends := (evaluate_settles value).mpr tame
  unfold resolveRef at raised
  cases found : evaluate py context value with
  | error other =>
    rw [found] at raised ends
    cases raised
    exact ends
  | ok result =>
    rw [found] at raised ends
    obtain ⟨stored, dumped⟩ := ends
    have same : (Except.error error : Except PyErr Json) = .ok stored := raised.symm.trans dumped
    cases same

end

/-- **Reference evaluation.** It returns JSON or raises an error that counts as "unresolved"
exactly where the expression is tame; with a tame `skip_if` the skip test does not raise, and
what a node's tame inputs resolve to can be stored. -/
theorem reference_settles_iff (py : Python) :
    (∀ context value, Settles (Found.IsJson py) (evaluate py context value) ↔
      Tame py context value) ∧
    (∀ (cfg : Config) node run existing,
      cfg.resolveRef = (fun value context => resolveRef py context value) →
      (∀ skipIf, node.skipIf = some skipIf →
        Tame py (Dispatcher.evalSkipContext run existing) skipIf) →
      ∃ skip, Dispatcher.shouldSkipNode cfg node run existing = .ok skip) ∧
    ∀ context (inputs : Dict) entries, (∀ entry ∈ inputs, Tame py context entry.2) →
      evaluateFields py context inputs = .ok entries → (Found.dict entries).IsJson py := by
  refine ⟨fun context => evaluate_settles, ?_, ?_⟩
  · intro cfg node run existing resolver tame
    unfold Dispatcher.shouldSkipNode
    cases guard : node.skipIf.filter Json.truthy with
    | none => exact ⟨false, rfl⟩
    | some skipIf =>
      have declared : node.skipIf = some skipIf := (Option.filter_eq_some_iff.mp guard).1
      rw [resolver]
      dsimp only
      cases outcome : resolveRef py (Dispatcher.evalSkipContext run existing) skipIf with
      | ok value => exact ⟨value.truthy, rfl⟩
      | error error =>
        have expected : error.kind = .keyError ∨ error.kind = .typeError :=
          resolveRef_expected (tame skipIf declared) outcome
        exact ⟨false, if_pos expected⟩
  · intro context inputs entries tame resolved
    have fields : TameFields py context inputs := by
      clear resolved
      induction inputs with
      | nil => trivial
      | cons entry rest ih =>
        refine .inl ⟨tame entry List.mem_cons_self, fun _ => ih fun other member => ?_⟩
        exact tame other (List.mem_cons_of_mem _ member)
    have ends := (evaluateFields_settles fun entry _ => evaluate_settles entry.2).mpr fields
    rw [resolved] at ends
    exact isJson_dict.mpr ends

/-- `kind:is` is no filter, and the `ValueError` is not what the callers expect. -/
theorem misspelled_filter_raises : ¬ ∀ (py : Python) context value,
    Settles (Found.IsJson py) (evaluate py context value) := by
  intro settles
  have raised := settles Sample.python [("files", .arr [.obj [("kind", .str "image")]])]
    (.obj [("$from", .str "files"), ("$filter", .obj [("kind:is", .str "image")])])
  rcases raised with missing | mistyped
  · cases missing
  · cases mistyped

/-- A path that leads nowhere is tame. -/
theorem missing_path_settles :
    Settles (Found.IsJson Sample.python)
      (evaluate Sample.python [] (.obj [("$from", .str "ask.answer")])) := by
  refine ((reference_settles_iff Sample.python).1 [] _).mpr ?_
  intro result found
  cases found

end Refs

end QueueWorkflows
