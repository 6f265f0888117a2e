import QueueWorkflows.Base.Scanning

/-! The translation of Postgres statements with psycopg's placeholders into SQLite's dialect, and
the same translation as it is meant: on symbols, of which a placeholder, an escape and a string
literal are one each. -/

namespace QueueWorkflows.SqlTranslation

open Scanning
open Scanning.Pattern (one many option done word)

/-! ### Classes of characters -/

/-- Python's `\\w` and `\\d`, of which only the ASCII part is spelled out. -/
structure Classes where
  word : Char → Bool
  digit : Char → Bool
  word_ascii : ∀ char : Char, char.toNat < 128 → word char = (char.isAlphanum || char == '_')
  digit_ascii : ∀ char : Char, char.toNat < 128 → digit char = char.isDigit

/-- Python's `\\s`. -/
def space (char : Char) : Bool :=
  [9, 10, 11, 12, 13, 28, 29, 30, 31, 32, 133, 160, 5760, 8192, 8193, 8194, 8195, 8196, 8197, 8198,
    8199, 8200, 8201, 8202, 8232, 8233, 8239, 8287, 12288].contains char.toNat

/-- `[A-Za-z_]` -/
def nameStart (char : Char) : Bool := char.isAlpha || char == '_'

/-- `[A-Za-z0-9_]` -/
def nameRest (char : Char) : Bool := char.isAlphanum || char == '_'

/-- The letters that `re.IGNORECASE` takes for this one. -/
def foldings : Char → List Char
  | 'I' => ['I', 'i', 'İ', 'ı']
  | 'K' => ['K', 'k', '\u212a']
  | 'S' => ['S', 's', 'ſ']
  | letter => [letter, letter.toLower]

def wordIgnoreCase (letters : List Char) (next : Pattern) : Pattern :=
  letters.foldr (fun letter next => one (foldings letter).contains next) next

/-- `\\s+` -/
def spaces (next : Pattern) : Pattern := one space (many space next)

/-! ### Patterns -/

def castPattern : Pattern :=
  word "::".toList <| one nameStart <| many nameRest <|
    option (many space <| word "[".toList <| many space <| word "]".toList done) done

def nowPattern : Pattern := word "now()".toList done

def leastPattern : Pattern := word "LEAST".toList <| many space <| word "(".toList done

def greatestPattern : Pattern := word "GREATEST".toList <| many space <| word "(".toList done

def forUpdatePattern : Pattern :=
  wordIgnoreCase "FOR".toList <| spaces <| wordIgnoreCase "UPDATE".toList <|
    option (spaces <| wordIgnoreCase "SKIP".toList <| spaces <| wordIgnoreCase "LOCKED".toList done)
      done

def namedParamPattern : Pattern :=
  word "%(".toList <| one nameStart <| many nameRest <| word ")s".toList done

/-! ### Rewriting -/

/-- What a text is made of, for the rules that are the same for letters and for symbols. -/
structure Alphabet (α : Type) where
  letter : α → Option Char
  last : α → Option Char
  ofChar : Char → α
  quoted : String → List α
  /-- A placeholder at the beginning, as it may stand in an interval. -/
  placeholder : List α → Option (List α × List α)

namespace Alphabet

variable {α : Type} (alphabet : Alphabet α) (classes : Classes)

def string (text : String) : List α := text.toList.map alphabet.ofChar

/-- `re.sub` with a fixed replacement; a pattern that is `bounded` begins with `\\b`. -/
def replace (bounded : Bool) (pattern : Pattern) (new : List α) : Rule α := fun before text =>
  if bounded && (before.bind alphabet.last).any classes.word then none
  else (pattern.run alphabet.letter text).map fun rest => (new, rest)

/-- `_EXPR`: a placeholder, a number or a column. -/
def expr (text : List α) : Option (List α × List α) :=
  match alphabet.placeholder text with
  | some found => some found
  | none =>
    match (one classes.digit <| many classes.digit done).run alphabet.letter text with
    | some rest => some (text.take (text.length - rest.length), rest)
    | none =>
      ((one nameStart <| many (fun char => classes.word char || char == '.') done).run
        alphabet.letter text).map fun rest => (text.take (text.length - rest.length), rest)

/-- `_interval_sub`. -/
def intervalSub (unit : String) (minus : Bool) (amount : List α) : List α :=
  let effective := if minus then alphabet.string "(-(" ++ amount ++ alphabet.string "))"
    else alphabet.string "(" ++ amount ++ alphabet.string ")"
  alphabet.string "strftime(" ++ alphabet.quoted "'%Y-%m-%d %H:%M:%f'" ++ alphabet.string ", " ++
    alphabet.quoted "'now'" ++ alphabet.string ", printf(" ++
    alphabet.quoted ("'%+d " ++ unit ++ "'") ++ alphabet.string ", " ++ effective ++
    alphabet.string "))"

/-- Plus or minus; whether it is minus. -/
def takeSign : List α → Option (Bool × List α)
  | sign :: text =>
    if alphabet.letter sign = some '+' then some (false, text)
    else if alphabet.letter sign = some '-' then some (true, text)
    else none
  | [] => none

/-- `now() ± make_interval(argument => amount)`. -/
def interval (argument unit : String) : Rule α := fun _ text => do
  let text ← (word "now()".toList <| many space done).run alphabet.letter text
  let (minus, text) ← alphabet.takeSign text
  let text ← (many space <| word "make_interval(".toList <| many space <| word argument.toList <|
    many space <| word "=>".toList <| many space done).run alphabet.letter text
  let (amount, text) ← expr alphabet classes text
  let rest ← (many space <| word ")".toList done).run alphabet.letter text
  return (alphabet.intervalSub unit minus amount, rest)

def rewriteIntervals (chunk : List α) : List α :=
  let chunk := sub (alphabet.interval classes "secs" "seconds") none 0 chunk
  sub (alphabet.interval classes "days" "days") none 0 chunk

/-- `_rewrite_chunk` up to the parameter style. -/
def restructure (chunk : List α) : List α :=
  let chunk := sub (alphabet.replace classes true forUpdatePattern []) none 0 chunk
  let chunk := alphabet.rewriteIntervals classes chunk
  let chunk := sub (alphabet.replace classes true nowPattern
    (alphabet.string "(strftime(" ++ alphabet.quoted "'%Y-%m-%d %H:%M:%f'" ++
      alphabet.string ", " ++ alphabet.quoted "'now'" ++ alphabet.string "))")) none 0 chunk
  let chunk := sub (alphabet.replace classes false castPattern []) none 0 chunk
  let chunk := sub (alphabet.replace classes true leastPattern (alphabet.string "MIN(")) none 0 chunk
  sub (alphabet.replace classes true greatestPattern (alphabet.string "MAX(")) none 0 chunk

end Alphabet

/-! ### The code -/

/-- A placeholder in an interval, whose name may have any word characters. -/
def placeholderPrefix (classes : Classes) (text : List Char) : Option (List Char × List Char) :=
  match (word "%(".toList <| one nameStart <| many classes.word <| word ")s".toList done).run some
      text with
  | some rest => some (text.take (text.length - rest.length), rest)
  | none => ((word "%s".toList done).run some text).map fun rest => ("%s".toList, rest)

def letters (classes : Classes) : Alphabet Char where
  letter := some
  last := some
  ofChar := id
  quoted := String.toList
  placeholder := placeholderPrefix classes

/-- `_NAMED_PARAM_RE.sub(r":\1", …)` -/
def namedParam : Rule Char := fun _ text =>
  (namedParamPattern.run some text).map fun rest =>
    (':' :: (text.drop 2).takeWhile nameRest, rest)

/-- `str.replace` -/
def replaceText (old new : String) : Rule Char := fun _ text =>
  ((word old.toList done).run some text).map fun rest => (new.toList, rest)

/-- The parameter style: named first, then positional, then the escapes. -/
def paramstyle (chunk : List Char) : List Char :=
  let chunk := sub namedParam none 0 chunk
  let chunk := sub (replaceText "%s" "?") none 0 chunk
  sub (replaceText "%%" "%") none 0 chunk

def rewriteChunk (classes : Classes) (chunk : List Char) : List Char :=
  paramstyle ((letters classes).restructure classes chunk)

/-- `_split_sql_literals`, with what it has in its buffer. -/
def splitSqlLiterals : Bool → List Char → List Char → List (Bool × List Char)
  | inStr, buf, [] => if buf = [] then [] else [(inStr, buf)]
  | false, buf, '\'' :: sql =>
    (if buf = [] then [] else [(false, buf)]) ++ splitSqlLiterals true ['\''] sql
  | false, buf, char :: sql => splitSqlLiterals false (buf ++ [char]) sql
  | true, buf, '\'' :: '\'' :: sql => splitSqlLiterals true (buf ++ ['\'', '\'']) sql
  | true, buf, '\'' :: sql => (true, buf ++ ['\'']) :: splitSqlLiterals false [] sql
  | true, buf, char :: sql => splitSqlLiterals true (buf ++ [char]) sql

/-- `now() ± interval 'N seconds'`. -/
def intervalLiteral (classes : Classes) : Rule Char := fun _ text => do
  let text ← (word "now()".toList <| many space done).run some text
  let (sign, text) ← match text with
    | sign :: text => if sign = '+' ∨ sign = '-' then some (sign, text) else none
    | [] => none
  let text ← (many space <| word "interval".toList <| many space <| word "'".toList done).run some text
  let amount := text.takeWhile classes.digit
  let rest ← (one classes.digit <| many classes.digit <| spaces <| word "second".toList <|
    option (word "s".toList done) <| word "'".toList done).run some text
  return ("datetime('now', '".toList ++ [sign] ++ amount ++ " seconds')".toList, rest)

def preSplitIntervals (classes : Classes) (sql : List Char) : List Char :=
  sub (intervalLiteral classes) none 0 sql

def translateSqlForSqlite (classes : Classes) (sql : String) : String :=
  String.ofList <| (splitSqlLiterals false [] (preSplitIntervals classes sql.toList)).flatMap
    fun (isLit, seg) => if isLit then seg else rewriteChunk classes seg

end QueueWorkflows.SqlTranslation
