import Mathlib.Data.Rat.Defs

/-! The values the engine stores and passes around: JSON columns, Python dicts
with string keys, and the exceptions its callers tell apart. -/

namespace QueueWorkflows

/-- A JSON value as psycopg hands it to Python. -/
inductive Json where
  | null
  | bool (value : Bool)
  | int (value : Int)
  | float (value : Rat)
  | str (value : String)
  | arr (items : List Json)
  | obj (fields : List (String × Json))
deriving BEq, Inhabited

/-- A Python dict with string keys, in insertion order. -/
abbrev Dict := List (String × Json)

/-- Python's `bool(value)`. -/
def Json.truthy : Json → Bool
  | .null => false
  | .bool value => value
  | .int value => value != 0
  | .float value => value != 0
  | .str value => value != ""
  | .arr items => !items.isEmpty
  | .obj fields => !fields.isEmpty

namespace Dict

def get? (dict : Dict) (key : String) : Option Json :=
  List.lookup key dict

/-- `dict[key] = value`: a present key keeps its place. -/
def set : Dict → String → Json → Dict
  | [], key, value => [(key, value)]
  | (name, old) :: rest, key, value =>
    if name == key then (key, value) :: rest else (name, old) :: set rest key value

/-- `dict.pop(key, None)`. -/
def pop (dict : Dict) (key : String) : Dict :=
  dict.filter fun entry => entry.1 != key

/-- `{**first, **second}`. -/
def merge (first second : Dict) : Dict :=
  second.foldl (fun dict entry => set dict entry.1 entry.2) first

end Dict

/-- A nullable text column read with Python truthiness: `""` counts as absent. -/
def nonEmpty (text : Option String) : Option String :=
  text.filter (· != "")

/-- The exception classes that some caller of the engine treats differently. Any other is
kept by its name, and with it whether it is a subclass of `ValueError`. -/
inductive ErrKind where
  | keyError
  | typeError
  | valueError
  | indexError
  | integrityError
  | runtimeError
  | other (name : String) (valueError : Bool := false)
deriving DecidableEq

def ErrKind.className : ErrKind → String
  | .keyError => "KeyError"
  | .typeError => "TypeError"
  | .valueError => "ValueError"
  | .indexError => "IndexError"
  | .integrityError => "IntegrityError"
  | .runtimeError => "RuntimeError"
  | .other name _ => name

/-- What `except ValueError` catches. -/
def ErrKind.isValueError : ErrKind → Bool
  | .valueError | .other _ true => true
  | _ => false

structure PyErr where
  kind : ErrKind
  text : String
deriving DecidableEq

/-- `f"{type(exc).__name__}: {exc}"`. -/
def PyErr.describe (error : PyErr) : String :=
  error.kind.className ++ ": " ++ error.text

/-- What the host's code hands back: JSON data, containers, and objects that JSON does not
know, at any depth. -/
inductive PyValue where
  | json (value : Json)
  | list (items : List PyValue)
  | dict (entries : List (String × PyValue))
  | object (typeName : String) (truthy : Bool := true)

namespace PyValue

/-- `type(value).__name__`. -/
def typeName : PyValue → String
  | .json .null => "NoneType"
  | .json (.bool _) => "bool"
  | .json (.int _) => "int"
  | .json (.float _) => "float"
  | .json (.str _) => "str"
  | .json (.arr _) | .list _ => "list"
  | .json (.obj _) | .dict _ => "dict"
  | .object typeName _ => typeName

def truthy : PyValue → Bool
  | .json value => value.truthy
  | .list items => !items.isEmpty
  | .dict entries => !entries.isEmpty
  | .object _ truthy => truthy

/-- The entries of a value that is a dict. -/
def entries? : PyValue → Option (List (String × PyValue))
  | .json (.obj fields) => some (fields.map fun field => (field.1, .json field.2))
  | .dict entries => some entries
  | _ => none

mutual

/-- `json.dumps`, as the value it is read back as. -/
def dumps : PyValue → Except PyErr Json
  | .json value => .ok value
  | .list items => (dumpsItems items).map .arr
  | .dict entries => (dumpsEntries entries).map .obj
  | .object typeName _ =>
    .error ⟨.typeError, "Object of type " ++ typeName ++ " is not JSON serializable"⟩

def dumpsItems : List PyValue → Except PyErr (List Json)
  | [] => .ok []
  | item :: items => do return (← item.dumps) :: (← dumpsItems items)

def dumpsEntries : List (String × PyValue) → Except PyErr Dict
  | [] => .ok []
  | (key, value) :: entries => do return (key, ← value.dumps) :: (← dumpsEntries entries)

end

end PyValue

end QueueWorkflows
