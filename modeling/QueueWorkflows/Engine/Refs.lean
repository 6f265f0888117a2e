import QueueWorkflows.Engine.Value

/-! The reference mini-language of `refs.py`: `$value`, `$from`, `$filter`, `$eq`, `$ne`
and `$coalesce`, resolved against a context. -/

namespace QueueWorkflows

/-- A value the evaluator comes to: JSON data, containers of any values, and objects that
JSON does not know. -/
inductive Found (Object : Type) where
  | json (value : Json)
  | list (items : List (Found Object))
  | dict (entries : List (String × Found Object))
  | object (value : Object)

/-- What the evaluator leaves to Python itself. -/
structure Python where
  Object : Type
  typeOf : Object → String
  /-- `bool` of an object. -/
  holds : Object → Bool
  /-- `==` of an object with JSON data. -/
  equals : Object → Json → Bool
  /-- `getattr` of a value that is no dict. -/
  getattr : Found Object → String → Option (Found Object)
  /-- `re.search(pattern, text)`. -/
  search : Json → String → Except PyErr Bool
  strOf : Found Object → String
  reprOf : Json → String

namespace Json

/-- The number a value compares as: `True == 1 == 1.0`. -/
def number? : Json → Option Rat
  | .bool value => some (if value then 1 else 0)
  | .int value => some value
  | .float value => some value
  | _ => none

mutual

/-- Python's `==`: numbers by value, dicts whatever the order of their keys. -/
def same : Json → Json → Bool
  | .null, .null => true
  | .str first, .str second => first == second
  | .arr first, .arr second => sameItems first second
  | .obj first, .obj second => first.length == second.length && sameFields first second
  | .bool first, second => second.number? == some (if first then 1 else 0)
  | .int first, second => second.number? == some first
  | .float first, second => second.number? == some first
  | _, _ => false
termination_by structural first => first

def sameItems : List Json → List Json → Bool
  | [], [] => true
  | first :: rest, second :: others => first.same second && sameItems rest others
  | _, _ => false
termination_by structural first => first

def sameFields : List (String × Json) → List (String × Json) → Bool
  | [], _ => true
  | (key, value) :: rest, others => (others.lookup key).any value.same && sameFields rest others
termination_by structural first => first

end

def typeName : Json → String
  | .null => "NoneType"
  | .bool _ => "bool"
  | .int _ => "int"
  | .float _ => "float"
  | .str _ => "str"
  | .arr _ => "list"
  | .obj _ => "dict"

end Json

/-- No value has an attribute, and no pattern is found. -/
def Sample.python : Python where
  Object := Empty
  typeOf := nofun
  holds := nofun
  equals := nofun
  getattr _ _ := none
  search _ _ := .ok false
  strOf _ := ""
  reprOf _ := ""

namespace Found

variable {Object : Type}

def isDict : Found Object → Bool
  | .json (.obj _) | .dict _ => true
  | _ => false

def isNone : Found Object → Bool
  | .json .null => true
  | _ => false

/-- The items of a value that is a list. -/
def items? : Found Object → Option (List (Found Object))
  | .json (.arr items) => some (items.map .json)
  | .list items => some items
  | _ => none

variable (py : Python)

def typeName : Found py.Object → String
  | .json value => value.typeName
  | .list _ => "list"
  | .dict _ => "dict"
  | .object value => py.typeOf value

def truthy : Found py.Object → Bool
  | .json value => value.truthy
  | .list items => !items.isEmpty
  | .dict entries => !entries.isEmpty
  | .object value => py.holds value

/-- A dict's entry, or an attribute of any other value. -/
def attr? : Found py.Object → String → Option (Found py.Object)
  | .json (.obj fields), name => (Dict.get? fields name).map .json
  | .dict entries, name => entries.lookup name
  | value, name => py.getattr value name

mutual

/-- `==` with JSON data. -/
def same : Found py.Object → Json → Bool
  | .json value, expected => value.same expected
  | .list items, .arr others => sameItems items others
  | .dict entries, .obj fields => entries.length == fields.length && sameEntries entries fields
  | .object value, expected => py.equals value expected
  | _, _ => false
termination_by structural value => value

def sameItems : List (Found py.Object) → List Json → Bool
  | [], [] => true
  | item :: items, other :: others => item.same other && sameItems items others
  | _, _ => false
termination_by structural items => items

def sameEntries : List (String × Found py.Object) → Dict → Bool
  | [], _ => true
  | (key, value) :: entries, fields =>
    (Dict.get? fields key).any value.same && sameEntries entries fields
termination_by structural entries => entries

end

mutual

/-- `json.dumps`, as the value it is read back as. -/
def dumps : Found py.Object → Except PyErr Json
  | .json value => .ok value
  | .list items => (dumpsItems items).map .arr
  | .dict entries => (dumpsEntries entries).map .obj
  | .object value => .error
      ⟨.typeError, "Object of type " ++ py.typeOf value ++ " is not JSON serializable"⟩

def dumpsItems : List (Found py.Object) → Except PyErr (List Json)
  | [] => .ok []
  | item :: items => do return (← item.dumps) :: (← dumpsItems items)

def dumpsEntries : List (String × Found py.Object) → Except PyErr Dict
  | [] => .ok []
  | (key, value) :: entries => do return (key, ← value.dumps) :: (← dumpsEntries entries)

end

end Found

mutual

theorem Found.dumps_error {py : Python} : ∀ (found : Found py.Object) (error : PyErr),
    found.dumps py = .error error → error.kind = .typeError
  | .json _, _, raised => nomatch raised
  | .list items, error, raised => by
    cases dumped : Found.dumpsItems py items with
    | ok values =>
      simp only [Found.dumps, dumped, Except.map, reduceCtorEq] at raised
    | error other =>
      simp only [Found.dumps, dumped, Except.map, Except.error.injEq] at raised
      exact raised ▸ dumpsItems_error items other dumped
  | .dict entries, error, raised => by
    cases dumped : Found.dumpsEntries py entries with
    | ok values =>
      simp only [Found.dumps, dumped, Except.map, reduceCtorEq] at raised
    | error other =>
      simp only [Found.dumps, dumped, Except.map, Except.error.injEq] at raised
      exact raised ▸ dumpsEntries_error entries other dumped
  | .object _, _, raised => by
    cases raised
    rfl

theorem Found.dumpsItems_error {py : Python} : ∀ (items : List (Found py.Object)) (error : PyErr),
    Found.dumpsItems py items = .error error → error.kind = .typeError
  | [], _, raised => nomatch raised
  | item :: rest, error, raised => by
    cases first : item.dumps py with
    | error other =>
      simp only [Found.dumpsItems, first, bind, Except.bind, Except.error.injEq] at raised
      exact raised ▸ dumps_error item other first
    | ok value =>
      cases others : Found.dumpsItems py rest with
      | error other =>
        simp only [Found.dumpsItems, first, others, bind, Except.bind, Except.error.injEq] at raised
        exact raised ▸ dumpsItems_error rest other others
      | ok values =>
        simp only [Found.dumpsItems, first, others, bind, Except.bind, pure, Except.pure,
          reduceCtorEq] at raised

theorem Found.dumpsEntries_error {py : Python} :
    ∀ (entries : List (String × Found py.Object)) (error : PyErr),
    Found.dumpsEntries py entries = .error error → error.kind = .typeError
  | [], _, raised => nomatch raised
  | (_, value) :: rest, error, raised => by
    cases first : value.dumps py with
    | error other =>
      simp only [Found.dumpsEntries, first, bind, Except.bind, Except.error.injEq] at raised
      exact raised ▸ dumps_error value other first
    | ok stored =>
      cases others : Found.dumpsEntries py rest with
      | error other =>
        simp only [Found.dumpsEntries, first, others, bind, Except.bind,
          Except.error.injEq] at raised
        exact raised ▸ dumpsEntries_error rest other others
      | ok values =>
        simp only [Found.dumpsEntries, first, others, bind, Except.bind, pure, Except.pure,
          reduceCtorEq] at raised

end

namespace Refs

variable (py : Python)

/-- `path.split(".")`. -/
def segments (path : String) : List String :=
  (path.toList.splitOn '.').map String.ofList

/-- `_dig`. -/
def dig (path : String) : Found py.Object → List String → Except PyErr (Found py.Object)
  | cur, [] => .ok cur
  | cur, part :: rest =>
    match cur.attr? py part with
    | some next => dig path next rest
    | none => .error ⟨.keyError, path ++
        (if cur.isDict then ": missing segment " else ": missing attr ") ++ py.reprOf (.str part)⟩

/-- `key.split(":", 1)`, where there is a colon. -/
def fieldOp (key : String) : Option (String × String) :=
  match key.toList.span (· != ':') with
  | (field, _ :: op) => some (String.ofList field, String.ofList op)
  | (_, []) => none

def fieldOf (item : Found py.Object) (field : String) : Found py.Object :=
  (item.attr? py field).getD (.json .null)

/-- `_match`. -/
def matchSpec (item : Found py.Object) : Dict → Except PyErr Bool
  | [] => .ok true
  | (key, expected) :: rest =>
    match fieldOp key with
    | none => .error ⟨.valueError, "filter key missing op: " ++ py.reprOf (.str key)⟩
    | some (field, op) =>
      let actual := fieldOf py item field
      if op = "eq" then
        if actual.same py expected then matchSpec item rest else .ok false
      else if op = "matches" then
        if actual.isNone then .ok false
        else do
          if ← py.search expected (py.strOf actual) then matchSpec item rest else return false
      else .error ⟨.valueError, "unsupported filter op: " ++ py.reprOf (.str op)⟩

def filterItems (spec : Json) : List (Found py.Object) → Except PyErr (List (Found py.Object))
  | [] => .ok []
  | item :: rest =>
    match spec with
    | .obj fields => do
      let keep ← matchSpec py item fields
      let others ← filterItems spec rest
      return if keep then item :: others else others
    | _ => .error ⟨.other "AttributeError",
        "'" ++ spec.typeName ++ "' object has no attribute 'items'"⟩

/-- What becomes of the value at the path. -/
def applyTo (path : String) (fields : Dict) (result : Found py.Object) :
    Except PyErr (Found py.Object) :=
  match Dict.get? fields "$filter" with
  | some spec =>
    match result.items? with
    | some items => (filterItems py spec items).map .list
    | none => .error ⟨.typeError,
        "$filter on non-list at " ++ py.reprOf (.str path) ++ ": " ++ result.typeName py⟩
  | none =>
    match Dict.get? fields "$eq", Dict.get? fields "$ne" with
    | some expected, _ => .ok (.json (.bool (result.same py expected)))
    | none, some expected => .ok (.json (.bool (!result.same py expected)))
    | none, none => .ok result

/-- A dict with `$from`. -/
def resolveFrom (context : Dict) (fields : Dict) : Json → Except PyErr (Found py.Object)
  | .str path => dig py path (.json (.obj context)) (segments path) >>= applyTo py path fields
  | other => .error ⟨.other "AttributeError",
      "'" ++ other.typeName ++ "' object has no attribute 'split'"⟩

variable (context : Dict)

mutual

/-- `resolve_ref`, as the value Python has. -/
def evaluate : Json → Except PyErr (Found py.Object)
  | .obj fields =>
    match Dict.get? fields "$value" with
    | some value => .ok (.json value)
    | none =>
      match coalesce fields with
      | some first => do
        match ← first, Dict.get? fields "$default" with
        | some resolved, _ => return resolved
        | none, some default => return .json default
        | none, none => throw ⟨.keyError,
            "$coalesce: no candidate resolved (and no $default): " ++
              py.reprOf ((Dict.get? fields "$coalesce").getD .null)⟩
      | none =>
        match Dict.get? fields "$from" with
        | some path => resolveFrom py context fields path
        | none => do return .dict (← evaluateFields fields)
  | value => .ok (.json value)
termination_by structural value => value

/-- `_coalesce`: the first candidate that resolves, and not to `None`; `none` here
where the dict has no `$coalesce`. -/
def coalesce : List (String × Json) → Option (Except PyErr (Option (Found py.Object)))
  | [] => none
  | (key, value) :: rest =>
    if key = "$coalesce" then
      match value with
      | .arr candidates => some (firstResolved candidates)
      | other => some (.error ⟨.typeError, "$coalesce expects a list, got " ++ other.typeName⟩)
    else coalesce rest
termination_by structural fields => fields

def firstResolved : List Json → Except PyErr (Option (Found py.Object))
  | [] => .ok none
  | candidate :: rest =>
    match evaluate candidate with
    | .ok resolved => if resolved.isNone then firstResolved rest else .ok (some resolved)
    | .error error => if error.kind = .keyError then firstResolved rest else .error error
termination_by structural candidates => candidates

def evaluateFields : List (String × Json) → Except PyErr (List (String × Found py.Object))
  | [] => .ok []
  | (key, value) :: rest => do
    let resolved ← evaluate value
    let others ← evaluateFields rest
    return (key, resolved) :: others
termination_by structural fields => fields

end

/-- `resolve_ref`, as what is stored of its value. -/
def resolveRef (value : Json) : Except PyErr Json :=
  evaluate py context value >>= Found.dumps py

end Refs

namespace Json

/-- Induction over a value, through its lists and dicts. -/
theorem nested_induction {motive : Json → Prop}
    (scalar : ∀ value, (∀ items, value ≠ .arr items) → (∀ fields, value ≠ .obj fields) →
      motive value)
    (arr : ∀ items, (∀ item ∈ items, motive item) → motive (.arr items))
    (obj : ∀ fields, (∀ entry ∈ fields, motive entry.2) → motive (.obj fields)) :
    ∀ value, motive value := by
  refine @Json.rec motive (fun items => ∀ item ∈ items, motive item)
    (fun fields => ∀ entry ∈ fields, motive entry.2) (fun entry => motive entry.2)
    (scalar _ nofun nofun) (fun _ => scalar _ nofun nofun) (fun _ => scalar _ nofun nofun)
    (fun _ => scalar _ nofun nofun) (fun _ => scalar _ nofun nofun) arr obj ?_ ?_ ?_ ?_ ?_
  · exact fun _ member => nomatch member
  · intro head tail first rest item member
    rcases List.mem_cons.mp member with rfl | inside
    · exact first
    · exact rest item inside
  · exact fun _ member => nomatch member
  · intro head tail first rest entry member
    rcases List.mem_cons.mp member with rfl | inside
    · exact first
    · exact rest entry inside
  · exact fun _ _ inside => inside

end Json

namespace Refs

variable {py : Python} {context : Dict}

theorem coalesce_eq_none {fields : Dict} (absent : Dict.get? fields "$coalesce" = none) :
    coalesce py context fields = none := by
  induction fields with
  | nil => rfl
  | cons entry rest ih =>
    obtain ⟨key, value⟩ := entry
    by_cases same : key = "$coalesce"
    · subst same
      simp [Dict.get?] at absent
    · have other : ("$coalesce" == key) = false := by simpa using Ne.symm same
      rw [Dict.get?, List.lookup_cons, other] at absent
      unfold coalesce
      rw [if_neg same]
      exact ih absent

end Refs

end QueueWorkflows
