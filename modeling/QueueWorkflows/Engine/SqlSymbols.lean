import QueueWorkflows.Engine.SqlTranslation
import Mathlib.Logic.Relation

/-! Statements as symbols. Psycopg reads placeholders and escapes, Postgres literals and comments;
what the translation is for is said of what they have read. -/

namespace QueueWorkflows.SqlTranslation

open Scanning
open Scanning.Pattern (one many done word)

/-- What a statement is made of. In code an apostrophe begins a literal, so that one which is a
letter stands in a comment. -/
inductive Sym where
  | letter (char : Char)
  | positional
  | named (name : List Char)
  | escape
  | literal (text : List Char)
deriving DecidableEq

namespace Sym

/-- As psycopg reads it. -/
def spell : Sym → List Char
  | letter char => [char]
  | positional => ['%', 's']
  | named name => '%' :: '(' :: name ++ [')', 's']
  | escape => ['%', '%']
  | literal text => text

/-- As SQLite reads it. -/
def render : Sym → List Char
  | letter char => [char]
  | positional => ['?']
  | named name => ':' :: name
  | escape => ['%']
  | literal text => text

def isLetter : Sym → Bool
  | letter _ => true
  | _ => false

/-- A placeholder or an escape. -/
def isMark : Sym → Bool
  | positional | named _ | escape => true
  | letter _ | literal _ => false

/-- A letter with which SQLite begins a placeholder. -/
def isSign : Sym → Bool
  | letter char => char == '?' || char == ':'
  | _ => false

end Sym

/-! ### Reading a statement -/

/-- Where a letter stands; comments in a block may be nested. -/
inductive Place where
  | code
  | line
  | block (depth : ℕ)

/-- The place behind two letters that belong together. -/
def Place.pair : Place → Char → List Char → Option Place
  | code, '-', '-' :: _ => some line
  | code, '/', '*' :: _ => some (block 0)
  | block depth, '/', '*' :: _ => some (block (depth + 1))
  | block 0, '*', '/' :: _ => some code
  | block (depth + 1), '*', '/' :: _ => some (block depth)
  | _, _, _ => none

def Place.behind : Place → Char → Place
  | line, '\n' => code
  | place, _ => place

/-- A statement may end here. -/
def Place.closed : Place → Bool
  | code | line => true
  | block _ => false

inductive Mode where
  | plain (place : Place)
  | literal (read : List Char)
  | name (read : List Char) (place : Place)

def lexFrom : Mode → List Char → Option (List Sym)
  | .plain place, [] => if place.closed then some [] else none
  | .plain place, first :: text =>
    if first = '%' then
      match text with
      | '%' :: text => (lexFrom (.plain place) text).map (.escape :: ·)
      | 's' :: text => (lexFrom (.plain place) text).map (.positional :: ·)
      | '(' :: text => lexFrom (.name [] place) text
      | _ => none
    else if first = '\'' ∧ place matches .code then lexFrom (.literal ['\'']) text
    else
      match place.pair first text, text with
      | some next, second :: text =>
        (lexFrom (.plain next) text).map ([.letter first, .letter second] ++ ·)
      | _, text => (lexFrom (.plain (place.behind first)) text).map (.letter first :: ·)
  | .literal _, [] => none
  | .literal read, '\'' :: '\'' :: text => lexFrom (.literal (read ++ ['\'', '\''])) text
  | .literal read, '\'' :: text =>
    (lexFrom (.plain .code) text).map (.literal (read ++ ['\'']) :: ·)
  | .literal read, char :: text => lexFrom (.literal (read ++ [char])) text
  | .name _ _, [] => none
  | .name read place, ')' :: 's' :: text =>
    if read = [] then none else (lexFrom (.plain place) text).map (.named read :: ·)
  | .name _ _, ')' :: _ => none
  | .name read place, char :: text => lexFrom (.name (read ++ [char]) place) text

/-- The symbols of a statement that is valid for psycopg and closes its literals and comments. -/
def lex (sql : String) : Option (List Sym) := lexFrom (.plain .code) sql.toList

/-! ### What the translation is for -/

/-- The literals that the rewriting puts into a statement. -/
def inserted : List (List Char) :=
  ["'%Y-%m-%d %H:%M:%f'".toList, "'now'".toList, "'%+d seconds'".toList, "'%+d days'".toList]

/-- The placeholders, the escapes and the signs of a statement. -/
def outline (source : List Sym) : List Sym :=
  source.filter fun symbol => symbol.isMark || symbol.isSign

/-- Two colons are taken out, as those of a cast. -/
inductive Uncasts : List Sym → List Sym → Prop where
  | pair (front back : List Sym) :
    Uncasts (front ++ .letter ':' :: .letter ':' :: back) (front ++ back)

/-- The placeholders, the escapes and the literals of a statement are all there, in their order.
No sign comes in, and none goes but colons in twos; no literal comes in but those of the rewriting,
and no letter with which a placeholder, an escape or a literal could begin. -/
structure Keeps (source out : List Sym) : Prop where
  outlined : Relation.ReflTransGen Uncasts (outline source) (outline out)
  order : (source.filter fun symbol => !symbol.isLetter).Sublist
    (out.filter fun symbol => !symbol.isLetter)
  literals : ∀ text, .literal text ∈ out → .literal text ∈ source ∨ text ∈ inserted
  letters : ∀ char ∈ ['%', '\''], .letter char ∈ out → .letter char ∈ source

/-- The translation of a statement to this text keeps its placeholders and literals. -/
def Faithful (source : List Sym) (result : String) : Prop :=
  ∃ out, Keeps source out ∧ result.toList = out.flatMap Sym.render

/-! ### The translation of symbols -/

def symbols : Alphabet Sym where
  letter
    | .letter char => some char
    | _ => none
  last symbol := symbol.spell.getLast?
  ofChar := .letter
  quoted text := [.literal text.toList]
  placeholder
    | .positional :: text => some ([.positional], text)
    | .named name :: text => some ([.named name], text)
    | _ => none

/-- The text between the literals is restructured; `chunk` is what has been read of it. -/
def restructureFrom (classes : Classes) (chunk : List Sym) : List Sym → List Sym
  | [] => symbols.restructure classes chunk
  | .literal text :: rest =>
    symbols.restructure classes chunk ++ .literal text :: restructureFrom classes [] rest
  | symbol :: rest => restructureFrom classes (chunk ++ [symbol]) rest

def restructureAll (classes : Classes) (source : List Sym) : List Sym :=
  restructureFrom classes [] source

/-- Behind an escape this would be read as the rest of a placeholder. -/
def clashes (text : List Sym) : Bool :=
  text.head? == some (.letter 's') ||
    ((word "(".toList <| one nameStart <| many nameRest <| word ")s".toList done).run symbols.letter
      text).isSome

/-- No escape stands before an `s` or before a name in parentheses and an `s`. -/
def apart : List Sym → Bool
  | [] => true
  | .escape :: rest => !clashes rest && apart rest
  | _ :: rest => apart rest

/-- `[A-Za-z_][A-Za-z0-9_]*` -/
def isIdentifier : List Char → Bool
  | [] => false
  | first :: rest => nameStart first && rest.all nameRest

/-- Somewhere in the text stands `now() ± interval 'N seconds'`. -/
def UsesIntervalLiteral (classes : Classes) (sql : String) : Prop :=
  ∃ text, text <:+ sql.toList ∧ (intervalLiteral classes none text).isSome = true

end QueueWorkflows.SqlTranslation
