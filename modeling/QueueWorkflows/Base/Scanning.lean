import Mathlib.Data.List.Infix
import Mathlib.Data.List.TakeWhile
import Mathlib.Data.Option.Basic

/-! Patterns that are matched from left to right, greedily and without going back, and the
substitution of all matches. The text may be made of symbols that are spelled with several
letters each. A pattern that neither begins inside the spelling of a symbol nor goes into one
does the same to the symbols and to their spelling. -/

namespace Scanning

universe u

variable {α : Type u}

inductive Pattern where
  | done
  | one (accepts : Char → Bool) (next : Pattern)
  | many (accepts : Char → Bool) (next : Pattern)
  | option (inner next : Pattern)

namespace Pattern

/-- What is left of a text after a match at its beginning. -/
def run (letter : α → Option Char) : Pattern → List α → Option (List α)
  | done, text => some text
  | one _ _, [] => none
  | one accepts next, first :: text =>
    if (letter first).any accepts then next.run letter text else none
  | many accepts next, text =>
    next.run letter (text.dropWhile fun symbol => (letter symbol).any accepts)
  | option inner next, text => next.run letter ((inner.run letter text).getD text)

/-- A word, letter by letter. -/
def word (letters : List Char) (next : Pattern) : Pattern :=
  letters.foldr (fun letter next => one (· == letter) next) next

/-- No part of the pattern accepts the letter. -/
def Shuns (letter : Char) : Pattern → Prop
  | done => True
  | one accepts next | many accepts next => accepts letter = false ∧ next.Shuns letter
  | option inner next => inner.Shuns letter ∧ next.Shuns letter

@[simp] theorem shuns_word {letters : List Char} {letter : Char} {next : Pattern} :
    (word letters next).Shuns letter ↔ letter ∉ letters ∧ next.Shuns letter := by
  induction letters with
  | nil => simp [word]
  | cons first letters ih =>
    have split : word (first :: letters) next = one (· == first) (word letters next) := rfl
    simp [split, Shuns, ih, and_assoc]

theorem any_some {char : Option Char} {accepts : Char → Bool} (accepted : char.any accepts = true) :
    ∃ letter, char = some letter ∧ accepts letter = true := by
  cases char with
  | none => cases accepted
  | some letter => exact ⟨letter, rfl, accepted⟩

/-- A match takes letters only, and none that the pattern shuns. -/
theorem run_front {letter : α → Option Char} {pattern : Pattern} {text rest : List α}
    (matched : pattern.run letter text = some rest) :
    ∃ front, text = front ++ rest ∧
      ∀ symbol ∈ front, ∃ char, letter symbol = some char ∧ ¬ pattern.Shuns char := by
  induction pattern generalizing text rest with
  | done =>
    cases matched
    exact ⟨[], rfl, nofun⟩
  | one accepts next ih =>
    cases text with
    | nil => cases matched
    | cons first text =>
      rw [run] at matched
      split at matched
      · rename_i accepted
        obtain ⟨front, split, letters⟩ := ih matched
        refine ⟨first :: front, by rw [split, List.cons_append], fun symbol listed => ?_⟩
        rcases List.mem_cons.mp listed with rfl | behind
        · obtain ⟨char, same, accepted⟩ := any_some accepted
          exact ⟨char, same, fun shuns => by cases accepted.symm.trans shuns.1⟩
        · obtain ⟨char, same, taken⟩ := letters symbol behind
          exact ⟨char, same, fun shuns => taken shuns.2⟩
      · cases matched
  | many accepts next ih =>
    obtain ⟨front, split, letters⟩ := ih matched
    refine ⟨text.takeWhile (fun symbol => (letter symbol).any accepts) ++ front, ?_, ?_⟩
    · rw [List.append_assoc, ← split, List.takeWhile_append_dropWhile]
    · intro symbol listed
      rcases List.mem_append.mp listed with taken | behind
      · have held := List.mem_takeWhile_imp taken
        obtain ⟨char, same, accepted⟩ := any_some held
        exact ⟨char, same, fun shuns => by cases accepted.symm.trans shuns.1⟩
      · obtain ⟨char, same, taken⟩ := letters symbol behind
        exact ⟨char, same, fun shuns => taken shuns.2⟩
  | option inner next innerIh ih =>
    obtain ⟨front, split, letters⟩ := ih matched
    have behind : ∀ symbol ∈ front, ∃ char, letter symbol = some char ∧
        ¬ (option inner next).Shuns char := by
      intro symbol listed
      obtain ⟨char, same, taken⟩ := letters symbol listed
      exact ⟨char, same, fun shuns => taken shuns.2⟩
    cases took : inner.run letter text with
    | none =>
      rw [took] at split
      exact ⟨front, split, behind⟩
    | some middle =>
      rw [took] at split
      obtain ⟨early, whole, more⟩ := innerIh took
      refine ⟨early ++ front, ?_, fun symbol listed => ?_⟩
      · rw [whole, List.append_assoc]
        exact congrArg _ split
      · rcases List.mem_append.mp listed with before | last
        · obtain ⟨char, same, taken⟩ := more symbol before
          exact ⟨char, same, fun shuns => taken shuns.1⟩
        · exact behind symbol last

/-- Nothing is left over but an end of the text. -/
theorem run_suffix {letter : α → Option Char} {pattern : Pattern} {text rest : List α}
    (matched : pattern.run letter text = some rest) : rest <:+ text := by
  obtain ⟨front, split, -⟩ := run_front matched
  exact ⟨front, split.symm⟩

/-- A pattern that begins with one letter takes some. -/
theorem run_one {letter : α → Option Char} {accepts : Char → Bool} {next : Pattern}
    {text rest : List α} (matched : (one accepts next).run letter text = some rest) :
    ∃ front, front ≠ [] ∧ text = front ++ rest ∧
      ∀ symbol ∈ front, ∃ char, letter symbol = some char ∧ ¬ (one accepts next).Shuns char := by
  obtain ⟨front, split, letters⟩ := run_front matched
  refine ⟨front, ?_, split, letters⟩
  rintro rfl
  rw [split, List.nil_append] at matched
  cases rest with
  | nil => cases matched
  | cons first rest =>
    rw [run] at matched
    split at matched
    · have shorter := (run_suffix matched).length_le
      rw [List.length_cons] at shorter
      omega
    · cases matched

/-- A symbol that is no letter ends what a pattern can match. -/
theorem run_barrier {letter : α → Option Char} {pattern : Pattern} {front rest : List α}
    {symbol : α} (none : letter symbol = none) : pattern.run letter (front ++ symbol :: rest) =
      (pattern.run letter front).map (· ++ symbol :: rest) := by
  induction pattern generalizing front with
  | done => rfl
  | one accepts next ih =>
    cases front with
    | nil => simp [run, none]
    | cons first front =>
      rw [List.cons_append, run, run, ih]
      split <;> rfl
  | many accepts next ih =>
    have stops : (front ++ symbol :: rest).dropWhile (fun symbol => (letter symbol).any accepts) =
        front.dropWhile (fun symbol => (letter symbol).any accepts) ++ symbol :: rest := by
      induction front with
      | nil => simp [none]
      | cons first front inner =>
        rw [List.cons_append, List.dropWhile_cons, List.dropWhile_cons, inner]
        split <;> rfl
    rw [run, run, stops, ih]
  | option inner next innerIh ih =>
    rw [run, run, innerIh]
    cases inner.run letter front with
    | none => exact ih
    | some left => exact ih

/-! ### Letters and symbols -/

section Spelling

variable {letter : α → Option Char} {spell : α → List Char} {pattern : Pattern} {text : List α}

/-- A symbol is a letter, or its spelling begins with one that the pattern shuns. -/
def Kept (letter : α → Option Char) (spell : α → List Char) (pattern : Pattern) (symbol : α) :
    Prop :=
  (∃ char, letter symbol = some char ∧ spell symbol = [char]) ∨
    letter symbol = none ∧ ∃ char rest, spell symbol = char :: rest ∧ pattern.Shuns char

theorem Kept.mono {symbol : α} {other : Pattern} (kept : Kept letter spell pattern symbol)
    (less : ∀ char, pattern.Shuns char → other.Shuns char) : Kept letter spell other symbol := by
  rcases kept with single | ⟨none, char, rest, spelled, shuns⟩
  · exact .inl single
  · exact .inr ⟨none, char, rest, spelled, less char shuns⟩

theorem dropWhile_spell {accepts : Char → Bool} {next : Pattern}
    (kept : ∀ symbol ∈ text, Kept letter spell (many accepts next) symbol) :
    (text.flatMap spell).dropWhile (fun char => (some char).any accepts) =
      (text.dropWhile fun symbol => (letter symbol).any accepts).flatMap spell := by
  induction text with
  | nil => rfl
  | cons first text ih =>
    have rest := ih fun symbol listed => kept symbol (List.mem_cons_of_mem _ listed)
    rcases kept first List.mem_cons_self with ⟨char, single, spelled⟩ |
      ⟨none, char, more, spelled, shunned, -⟩
    · rw [List.flatMap_cons, spelled, List.singleton_append, List.dropWhile_cons,
        List.dropWhile_cons, rest, single]
      split
      · rfl
      · rw [List.flatMap_cons, spelled, List.singleton_append]
    · rw [List.dropWhile_cons, none]
      simp [spelled, shunned]

/-- The pattern matches the spelling of a text where it matches the text. -/
theorem run_spell (kept : ∀ symbol ∈ text, Kept letter spell pattern symbol) :
    pattern.run some (text.flatMap spell) = (pattern.run letter text).map (·.flatMap spell) := by
  induction pattern generalizing text with
  | done => rfl
  | one accepts next ih =>
    cases text with
    | nil => rfl
    | cons first text =>
      have rest := ih fun symbol listed =>
        (kept symbol (List.mem_cons_of_mem _ listed)).mono fun _ shuns => shuns.2
      rcases kept first List.mem_cons_self with ⟨char, single, spelled⟩ |
        ⟨none, char, more, spelled, shunned, -⟩
      · rw [List.flatMap_cons, spelled, List.singleton_append, run, run, rest, single]
        split <;> rfl
      · rw [List.flatMap_cons, spelled, List.cons_append, run, run, none]
        simp [shunned]
  | many accepts next ih =>
    rw [run, run, dropWhile_spell kept]
    refine ih fun symbol listed => ?_
    exact (kept symbol ((List.dropWhile_suffix _).subset listed)).mono fun _ shuns => shuns.2
  | option inner next innerIh ih =>
    have inside := innerIh fun symbol listed => (kept symbol listed).mono fun _ shuns => shuns.1
    have all : ∀ symbol ∈ text, Kept letter spell next symbol := fun symbol listed =>
      (kept symbol listed).mono fun _ shuns => shuns.2
    rw [run, run, inside]
    cases took : inner.run letter text with
    | none => exact ih all
    | some rest => exact ih fun symbol listed => all symbol ((run_suffix took).subset listed)

end Spelling

/-! ### Texts in which no match begins -/

/-- However the text goes on, the pattern does not match it. -/
def fails : Pattern → List Char → Bool
  | one accepts next, char :: text => !accepts char || next.fails text
  | many accepts next, text =>
    match text.dropWhile accepts with
    | [] => false
    | char :: text => next.fails (char :: text)
  | _, _ => false

theorem run_fails {pattern : Pattern} {front : List Char} (fails : pattern.fails front = true)
    (rest : List Char) : pattern.run some (front ++ rest) = none := by
  induction pattern generalizing front with
  | done => simp [Pattern.fails] at fails
  | option inner next _ _ => simp [Pattern.fails] at fails
  | one accepts next ih =>
    cases front with
    | nil => simp [Pattern.fails] at fails
    | cons char front =>
      rw [List.cons_append, run]
      cases accepted : accepts char with
      | false => simp [accepted]
      | true =>
        rw [Pattern.fails, accepted] at fails
        simpa [accepted] using ih (by simpa using fails)
  | many accepts next ih =>
    rw [Pattern.fails] at fails
    cases left : front.dropWhile accepts with
    | nil => simp [left] at fails
    | cons char more =>
      rw [left] at fails
      have dropped : (front ++ rest).dropWhile (fun char => (some char).any accepts) =
          char :: more ++ rest := by
        have same : (fun char => (some char).any accepts) = accepts := by
          funext char
          simp
        rw [same, List.dropWhile_append, left]
        simp
      rw [run, dropped]
      exact ih fails

/-- The pattern stops at a letter of the kind or at the last, and never accepts the last. -/
def Guarded (kind : Char → Prop) (last : Char) : Pattern → Prop
  | one accepts next =>
    accepts last = false ∧ ((∀ char, kind char → accepts char = false) ∨ next.Guarded kind last)
  | many accepts next =>
    accepts last = false ∧ (∀ char, kind char → accepts char = false) ∧ next.Guarded kind last
  | _ => False

theorem run_guarded {kind : Char → Prop} {last : Char} {pattern : Pattern}
    (guarded : pattern.Guarded kind last) (front : List Char) (letters : ∀ char ∈ front, kind char)
    (rest : List Char) : pattern.run some (front ++ last :: rest) = none := by
  induction pattern generalizing front with
  | done => exact guarded.elim
  | option inner next _ _ => exact guarded.elim
  | one accepts next ih =>
    obtain ⟨refused, either⟩ := guarded
    cases front with
    | nil => simp [run, refused]
    | cons char front =>
      rw [List.cons_append, run]
      cases accepted : accepts char with
      | false => simp [accepted]
      | true =>
        rcases either with foreign | guarded
        · have refused := foreign char (letters char List.mem_cons_self)
          cases accepted.symm.trans refused
        · have behind := ih guarded front fun char listed => letters char (List.mem_cons_of_mem _ listed)
          simpa [accepted] using behind
  | many accepts next ih =>
    obtain ⟨refused, foreign, guarded⟩ := guarded
    have stays : (front ++ last :: rest).dropWhile (fun char => (some char).any accepts) =
        front ++ last :: rest := by
      cases front with
      | nil => simp [refused]
      | cons char front => simp [foreign char (letters char List.mem_cons_self)]
    rw [run, stays]
    exact ih guarded front letters

end Pattern

/-! ### Substitution -/

/-- What takes the place of a match at the beginning of a text, and the text after it. A rule
may look at the symbol that stands before. -/
abbrev Rule (α : Type u) := Option α → List α → Option (List α × List α)

/-- A match takes away some of a text. -/
def Rule.Shrinks (rule : Rule α) : Prop :=
  ∀ before text new rest, rule before text = some (new, rest) →
    ∃ front, front ≠ [] ∧ text = front ++ rest

/-- The text with all matches replaced, after the symbols of a match that are left to skip. -/
def sub (rule : Rule α) : Option α → ℕ → List α → List α
  | _, _, [] => []
  | _, skip + 1, first :: text => sub rule (some first) skip text
  | before, 0, first :: text =>
    match rule before (first :: text) with
    | some (new, rest) => new ++ sub rule (some first) (text.length - rest.length) text
    | none => first :: sub rule (some first) 0 text

section Sub

variable {rule : Rule α} {before : Option α} {front text rest new : List α}

theorem last_or {first : α} : (first :: front).getLast?.or before =
    front.getLast?.or (some first) := by
  cases front with
  | nil => rfl
  | cons second front =>
    rw [List.getLast?_cons_cons, List.getLast?_cons]
    rfl

@[simp] theorem sub_nil {skip : ℕ} : sub rule before skip [] = [] := by
  cases skip <;> rfl

/-- What stands before the text does not matter to a rule that does not look at it. -/
theorem sub_blind (blind : ∀ before other text, rule before text = rule other text)
    (other : Option α) (text : List α) : sub rule before 0 text = sub rule other 0 text := by
  cases text with
  | nil => rfl
  | cons first text => rw [sub, sub, blind before other]

theorem sub_skip : sub rule before front.length (front ++ rest) =
    sub rule (front.getLast?.or before) 0 rest := by
  induction front generalizing before with
  | nil => rfl
  | cons first front ih =>
    rw [List.length_cons, List.cons_append, sub, ih, last_or]

theorem sub_match (nonempty : front ≠ []) (matched : rule before (front ++ rest) = some (new, rest)) :
    sub rule before 0 (front ++ rest) = new ++ sub rule front.getLast? 0 rest := by
  cases front with
  | nil => exact absurd rfl nonempty
  | cons first front =>
    rw [List.cons_append] at matched ⊢
    rw [sub, matched]
    have skipped : (front ++ rest).length - rest.length = front.length := by simp
    simp only [skipped, sub_skip]
    rw [← @last_or _ none, Option.or_none]

theorem sub_keep {first : α} (unmatched : rule before (first :: text) = none) :
    sub rule before 0 (first :: text) = first :: sub rule (some first) 0 text := by
  rw [sub, unmatched]

/-- A text in which no match begins. -/
theorem sub_pass (unmatched : ∀ back, back ≠ [] → back <:+ front → ∀ before,
    rule before (back ++ rest) = none) :
    sub rule before 0 (front ++ rest) = front ++ sub rule (front.getLast?.or before) 0 rest := by
  induction front generalizing before with
  | nil => rfl
  | cons first front ih =>
    have here := unmatched (first :: front) (by simp) List.suffix_rfl before
    rw [List.cons_append] at here ⊢
    rw [sub_keep here, last_or, List.cons_append,
      ih fun back nonempty ends => unmatched back nonempty (ends.trans (List.suffix_cons _ _))]

/-- What is kept symbol by symbol and by each replacement is kept by the substitution. -/
theorem sub_induction (shrinks : rule.Shrinks) (related : List α → List α → Prop) (nil : related [] [])
    (keep : ∀ first text result, related text result → related (first :: text) (first :: result))
    (replace : ∀ before front new rest result, front ≠ [] →
      rule before (front ++ rest) = some (new, rest) → related rest result →
        related (front ++ rest) (new ++ result)) (before : Option α) (text : List α) :
    related text (sub rule before 0 text) := by
  induction size : text.length using Nat.strong_induction_on generalizing before text with
  | _ size ih =>
    subst size
    cases text with
    | nil => exact nil
    | cons first text =>
      cases matched : rule before (first :: text) with
      | none =>
        rw [sub_keep matched]
        exact keep first text _ (ih _ (by simp) _ _ rfl)
      | some found =>
        obtain ⟨new, rest⟩ := found
        obtain ⟨front, nonempty, same⟩ := shrinks _ _ _ _ matched
        rw [same] at matched ⊢
        rw [sub_match nonempty matched]
        refine replace before front new rest _ nonempty matched (ih _ ?_ _ _ rfl)
        have shorter := congrArg List.length same
        have some := List.length_pos_iff.mpr nonempty
        simp only [List.length_cons, List.length_append] at shorter ⊢
        omega

end Sub

/-! ### Symbols and their spelling -/

section Spelling

variable {spell : α → List Char} {ok : α → Prop} {symbols : Rule α} {letters : Rule Char}

/-- The last letter of a symbol. -/
def lastLetter (spell : α → List Char) (before : Option α) : Option Char :=
  before.bind fun symbol => (spell symbol).getLast?

theorem getLast_spell (spelled : ∀ symbol, ok symbol → spell symbol ≠ []) {front : List α}
    (nonempty : front ≠ []) (all : ∀ symbol ∈ front, ok symbol) :
    (front.flatMap spell).getLast? = lastLetter spell front.getLast? := by
  obtain ⟨early, last, rfl⟩ := List.eq_nil_or_concat front |>.resolve_left nonempty
  rw [List.concat_eq_append, List.flatMap_append, List.flatMap_singleton, List.getLast?_append,
    List.getLast?_concat]
  have some := spelled last (all last (by simp))
  cases ends : (spell last).getLast? with
  | none => exact absurd (List.getLast?_eq_none_iff.mp ends) some
  | some char => simp [lastLetter, ends]

/-- A rule for letters that does to the spelling of a text what a rule for symbols does to the
text, and that does not match inside the spelling of a symbol. -/
structure Spells (spell : α → List Char) (ok : α → Prop) (letters : Rule Char) (symbols : Rule α) :
    Prop where
  spelled : ∀ symbol, ok symbol → spell symbol ≠ []
  shrinks : symbols.Shrinks
  same : ∀ before text, (∀ symbol ∈ text, ok symbol) →
    letters (lastLetter spell before) (text.flatMap spell) =
      (symbols before text).map fun (new, rest) => (new.flatMap spell, rest.flatMap spell)
  inside : ∀ symbol, ok symbol → ∀ front back, front ≠ [] → back ≠ [] →
    spell symbol = front ++ back → ∀ before rest, letters before (back ++ rest) = none

theorem Spells.sub (spells : Spells spell ok letters symbols) (before : Option α) (text : List α)
    (all : ∀ symbol ∈ text, ok symbol) :
    Scanning.sub letters (lastLetter spell before) 0 (text.flatMap spell) =
      (Scanning.sub symbols before 0 text).flatMap spell := by
  induction size : text.length using Nat.strong_induction_on generalizing before text with
  | _ size ih =>
    subst size
    cases text with
    | nil => simp
    | cons first text =>
      have same := spells.same before (first :: text) all
      cases matched : symbols before (first :: text) with
      | none =>
        rw [matched, Option.map_none] at same
        have behind : ∀ symbol ∈ text, ok symbol := fun symbol listed =>
          all symbol (List.mem_cons_of_mem _ listed)
        have own := all first List.mem_cons_self
        obtain ⟨char, more, spelled⟩ := List.exists_cons_of_ne_nil (spells.spelled first own)
        rw [sub_keep matched, List.flatMap_cons, List.flatMap_cons,
          ← ih _ (by simp) (some first) text behind rfl]
        rw [List.flatMap_cons, spelled, List.cons_append] at same
        rw [spelled, List.cons_append, sub_keep same, List.cons_append]
        congr 1
        rw [sub_pass fun back nonempty ends before => by
          obtain ⟨early, split⟩ := ends
          refine spells.inside first own (char :: early) back (by simp) nonempty ?_ before _
          rw [spelled, ← split, List.cons_append]]
        rw [← @last_or _ none, Option.or_none]
        simp only [lastLetter, Option.bind_some, spelled]
      | some found =>
        obtain ⟨new, rest⟩ := found
        obtain ⟨front, nonempty, split⟩ := spells.shrinks _ _ _ _ matched
        rw [matched, Option.map_some] at same
        rw [split] at matched same all ⊢
        have front_ok : ∀ symbol ∈ front, ok symbol := fun symbol listed =>
          all symbol (List.mem_append_left _ listed)
        have letters_nonempty : front.flatMap spell ≠ [] := by
          obtain ⟨symbol, more, rfl⟩ := List.exists_cons_of_ne_nil nonempty
          have some := spells.spelled symbol (front_ok symbol List.mem_cons_self)
          simp [some]
        rw [List.flatMap_append] at same ⊢
        rw [sub_match nonempty matched, sub_match letters_nonempty same, List.flatMap_append]
        congr 1
        rw [getLast_spell spells.spelled nonempty front_ok]
        refine ih _ ?_ _ rest (fun symbol listed => all symbol (List.mem_append_right _ listed)) rfl
        have shorter := congrArg List.length split
        have some := List.length_pos_iff.mpr nonempty
        simp only [List.length_cons, List.length_append] at shorter ⊢
        omega

end Spelling

end Scanning
