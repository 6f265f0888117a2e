import QueueWorkflows.Engine.SqlSymbols

/-! The translation on letters against the translation on symbols. The patterns do not reach into
a placeholder, an escape or a literal; only the last step, the parameter style, takes the second
half of an escape for the beginning of a placeholder. -/

namespace QueueWorkflows.SqlTranslation

open Scanning
open Scanning.Pattern (one many option done word)

/-! ### Symbols between literals -/

/-- A symbol that may stand between the literals of a statement. -/
def Plain : Sym → Prop
  | .letter char => char ≠ '%' ∧ char ≠ '\''
  | .positional | .escape => True
  | .named name => isIdentifier name = true
  | .literal text => text ∈ inserted

theorem inserted_quoted {text : List Char} (listed : text ∈ inserted) :
    ∃ rest, text = '\'' :: rest := by
  simp only [inserted, List.mem_cons, List.not_mem_nil, or_false] at listed
  rcases listed with rfl | rfl | rfl | rfl <;> exact ⟨_, rfl⟩

theorem spell_ne_nil {symbol : Sym} (plain : Plain symbol) : symbol.spell ≠ [] := by
  cases symbol with
  | letter char => simp [Sym.spell]
  | positional => simp [Sym.spell]
  | named name => simp [Sym.spell]
  | escape => simp [Sym.spell]
  | literal text =>
    obtain ⟨rest, rfl⟩ := inserted_quoted plain
    simp [Sym.spell]

/-! ### What is kept -/

theorem outline_append (front back : List Sym) :
    outline (front ++ back) = outline front ++ outline back :=
  List.filter_append _ _

/-- Colons are taken out of two parts as they are of the whole. -/
theorem uncasts_append {first second new last : List Sym}
    (front : Relation.ReflTransGen Uncasts first new)
    (back : Relation.ReflTransGen Uncasts second last) :
    Relation.ReflTransGen Uncasts (first ++ second) (new ++ last) := by
  have early : Relation.ReflTransGen Uncasts (first ++ second) (new ++ second) :=
    front.lift (· ++ second) fun _ _ ⟨left, right⟩ => by
      simpa [Function.onFun] using Uncasts.pair left (right ++ second)
  have late : Relation.ReflTransGen Uncasts (new ++ second) (new ++ last) :=
    back.lift (new ++ ·) fun _ _ ⟨left, right⟩ => by
      simpa [Function.onFun] using Uncasts.pair (new ++ left) right
  exact early.trans late

/-- What the rewriting puts in: literals of its own, and letters that mean nothing to psycopg and
begin no placeholder of SQLite. -/
def fresh : Sym → Bool
  | .letter char => !(['%', '\'', '?', ':'].contains char)
  | .literal text => inserted.contains text
  | .positional | .named _ | .escape => false

theorem plain_of_fresh {symbol : Sym} (new : fresh symbol = true) : Plain symbol := by
  cases symbol with
  | letter char =>
    simp only [fresh, Bool.not_eq_true', List.contains_eq_mem, decide_eq_false_iff_not,
      List.mem_cons, not_or] at new
    exact ⟨new.1, new.2.1⟩
  | literal text => exact List.contains_iff_mem.mp new
  | positional | named _ | escape => cases new

namespace Keeps

variable {source middle out first second new last : List Sym}

theorem refl (source : List Sym) : Keeps source source :=
  ⟨.refl, .refl _, fun _ => .inl, fun _ _ => id⟩

theorem trans (early : Keeps source middle) (late : Keeps middle out) : Keeps source out where
  outlined := early.outlined.trans late.outlined
  order := early.order.trans late.order
  literals text listed := (late.literals text listed).elim (early.literals text) .inr
  letters char odd listed := early.letters char odd (late.letters char odd listed)

theorem append (front : Keeps first new) (back : Keeps second last) :
    Keeps (first ++ second) (new ++ last) where
  outlined := by
    rw [outline_append, outline_append]
    exact uncasts_append front.outlined back.outlined
  order := by
    rw [List.filter_append, List.filter_append]
    exact front.order.append back.order
  literals text listed := by
    rcases List.mem_append.mp listed with before | behind
    · exact (front.literals text before).imp_left (List.mem_append_left _)
    · exact (back.literals text behind).imp_left (List.mem_append_right _)
  letters char odd listed := by
    rcases List.mem_append.mp listed with before | behind
    · exact List.mem_append_left _ (front.letters char odd before)
    · exact List.mem_append_right _ (back.letters char odd behind)

/-- Letters are taken out, none of them a sign. -/
theorem of_letters (letters : ∀ symbol ∈ source, symbol.isLetter = true ∧ symbol.isSign = false) :
    Keeps source [] where
  outlined := by
    have empty : outline source = [] := by
      refine List.filter_eq_nil_iff.mpr fun symbol listed => ?_
      obtain ⟨letter, plain⟩ := letters symbol listed
      cases symbol with
      | letter char => simp [Sym.isMark, plain]
      | positional | named _ | escape | literal _ => cases letter
    rw [empty]
    exact .refl
  order := by
    rw [List.filter_eq_nil_iff.mpr fun symbol listed => by simp [(letters symbol listed).1]]
    exact List.nil_sublist _
  literals _ listed := (List.not_mem_nil listed).elim
  letters _ _ listed := (List.not_mem_nil listed).elim

/-- The colons of a cast are taken out. -/
theorem of_colons : Keeps [.letter ':', .letter ':'] [] where
  outlined := .single (.pair [] [])
  order := List.nil_sublist _
  literals _ listed := (List.not_mem_nil listed).elim
  letters _ _ listed := (List.not_mem_nil listed).elim

theorem of_fresh (own : ∀ symbol ∈ out, fresh symbol = true) : Keeps [] out where
  outlined := by
    have empty : outline out = [] := by
      refine List.filter_eq_nil_iff.mpr fun symbol listed => ?_
      have new := own symbol listed
      cases symbol with
      | letter char =>
        simp only [fresh, Bool.not_eq_true', List.contains_eq_mem, decide_eq_false_iff_not,
          List.mem_cons, not_or] at new
        simp [Sym.isMark, Sym.isSign, new.2.2]
      | literal _ => simp [Sym.isMark, Sym.isSign]
      | positional | named _ | escape => cases new
    rw [empty]
    exact .refl
  order := List.nil_sublist _
  literals text listed := .inr (List.contains_iff_mem.mp (own _ listed))
  letters char odd listed := by
    have new := own _ listed
    simp only [fresh, Bool.not_eq_true', List.contains_eq_mem, decide_eq_false_iff_not,
      List.mem_cons, List.not_mem_nil, or_false, not_or] at new odd
    exact absurd odd (not_or.mpr ⟨new.1, new.2.1⟩)

end Keeps

/-! ### Matches -/

section Patterns

variable {pattern : Pattern} {symbol : Sym}

/-- A symbol that a pattern without percent signs and apostrophes does not reach into. -/
theorem kept_of (percent : pattern.Shuns '%') (quote : pattern.Shuns '\'')
    (plain : Plain symbol) : pattern.Kept symbols.letter Sym.spell symbol := by
  cases symbol with
  | letter char => exact .inl ⟨char, rfl, rfl⟩
  | positional => exact .inr ⟨rfl, '%', _, rfl, percent⟩
  | named name => exact .inr ⟨rfl, '%', _, rfl, percent⟩
  | escape => exact .inr ⟨rfl, '%', _, rfl, percent⟩
  | literal text =>
    obtain ⟨rest, rfl⟩ := inserted_quoted plain
    exact .inr ⟨rfl, '\'', rest, rfl, quote⟩

/-- What a match without signs takes away. -/
theorem run_takes (colon : pattern.Shuns ':') (question : pattern.Shuns '?') {text rest : List Sym}
    (matched : pattern.run symbols.letter text = some rest) :
    ∃ front, text = front ++ rest ∧ Keeps front [] := by
  obtain ⟨front, split, letters⟩ := Pattern.run_front matched
  refine ⟨front, split, .of_letters fun symbol listed => ?_⟩
  obtain ⟨char, same, taken⟩ := letters symbol listed
  cases symbol with
  | letter own =>
    cases same
    refine ⟨rfl, ?_⟩
    rw [Sym.isSign, Bool.or_eq_false_iff, beq_eq_false_iff_ne, beq_eq_false_iff_ne]
    refine ⟨?_, ?_⟩
    · rintro rfl
      exact taken question
    · rintro rfl
      exact taken colon
  | positional | named _ | escape | literal _ => cases same

theorem one_takes (begins : ∃ accepts next, pattern = one accepts next)
    (colon : pattern.Shuns ':') (question : pattern.Shuns '?') (text rest : List Sym)
    (matched : pattern.run symbols.letter text = some rest) :
    ∃ front, front ≠ [] ∧ text = front ++ rest ∧ Keeps front [] := by
  obtain ⟨accepts, next, rfl⟩ := begins
  obtain ⟨front, split, keeps⟩ := run_takes colon question matched
  obtain ⟨same, nonempty, other, -⟩ := Pattern.run_one matched
  refine ⟨front, ?_, split, keeps⟩
  rwa [List.append_cancel_right (split.symm.trans other)]

theorem run_word {letters : List Char} {text rest : List Sym}
    (matched : (word letters pattern).run symbols.letter text = some rest) :
    ∃ behind, text = letters.map .letter ++ behind ∧ pattern.run symbols.letter behind = some rest := by
  induction letters generalizing text with
  | nil => exact ⟨text, rfl, matched⟩
  | cons letter letters ih =>
    cases text with
    | nil => cases matched
    | cons first text =>
      have split : word (letter :: letters) pattern = one (· == letter) (word letters pattern) := rfl
      rw [split, Pattern.run] at matched
      split at matched
      · rename_i accepted
        obtain ⟨char, same, taken⟩ := Pattern.any_some accepted
        obtain ⟨behind, rfl, run⟩ := ih matched
        refine ⟨behind, ?_, run⟩
        cases first with
        | letter own =>
          cases same
          rw [List.map_cons, List.cons_append, beq_iff_eq.mp taken]
        | positional | named _ | escape | literal _ => cases same
      · cases matched

/-- A pattern that has neither percent signs nor apostrophes, and does not begin inside the
spelling of a symbol. -/
structure Apart (pattern : Pattern) : Prop where
  percent : pattern.Shuns '%'
  quote : pattern.Shuns '\''
  takes : ∀ text rest, pattern.run symbols.letter text = some rest →
    ∃ front, front ≠ [] ∧ text = front ++ rest ∧ Keeps front []
  guarded : pattern.Guarded (fun char => nameRest char = true) ')'
  marks : ∀ back ∈ [['s'], ['%'], ['(']], pattern.fails back = true
  literals : ∀ text ∈ inserted, ∀ back ∈ text.tail.tails, back = [] ∨ pattern.fails back = true

theorem identifier_letters {name : List Char} (identifier : isIdentifier name = true) :
    ∀ char ∈ name, nameRest char = true := by
  cases name with
  | nil => simp
  | cons first rest =>
    simp only [isIdentifier, nameStart, Bool.and_eq_true, Bool.or_eq_true, List.all_eq_true] at identifier
    intro char listed
    rcases List.mem_cons.mp listed with rfl | behind
    · simp only [nameRest, Char.isAlphanum, Bool.or_eq_true]
      exact identifier.1.imp_left .inl
    · exact identifier.2 char behind

/-- No match begins inside the spelling of a symbol. -/
theorem Apart.inside (away : Apart pattern) (plain : Plain symbol) {front back : List Char}
    (first : front ≠ []) (second : back ≠ []) (split : symbol.spell = front ++ back)
    (rest : List Char) : pattern.run some (back ++ rest) = none := by
  have mark : ∀ back ∈ [['s'], ['%'], ['(']], ∀ rest, pattern.run some (back ++ rest) = none :=
    fun back listed => Pattern.run_fails (away.marks back listed)
  obtain ⟨char, early, rfl⟩ := List.exists_cons_of_ne_nil first
  have ends : back <:+ symbol.spell.tail := by
    rw [split]
    exact List.suffix_append _ _
  cases symbol with
  | letter char =>
    have empty : back = [] := by simpa [Sym.spell] using ends
    exact absurd empty second
  | positional =>
    have last : back = ['s'] := by
      rcases List.suffix_cons_iff.mp ends with same | none
      · exact same
      · exact absurd (List.suffix_nil.mp none) second
    exact last ▸ mark ['s'] (by simp) rest
  | escape =>
    have last : back = ['%'] := by
      rcases List.suffix_cons_iff.mp ends with same | none
      · exact same
      · exact absurd (List.suffix_nil.mp none) second
    exact last ▸ mark ['%'] (by simp) rest
  | named name =>
    have letters := identifier_letters plain
    rcases List.suffix_cons_iff.mp ends with whole | inner
    · subst whole
      exact mark ['('] (by simp) _
    · have closing : [')', 's'] <:+ name ++ [')', 's'] := List.suffix_append _ _
      rcases List.suffix_or_suffix_of_suffix inner closing with short | long
      · rcases List.suffix_cons_iff.mp short with same | shorter
        · subst same
          exact Pattern.run_guarded away.guarded [] nofun _
        · rcases List.suffix_cons_iff.mp shorter with same | none
          · exact same ▸ mark ['s'] (by simp) rest
          · exact absurd (List.suffix_nil.mp none) second
      · obtain ⟨more, rfl⟩ := long
        have inside := List.suffix_append_self_iff.mp inner
        rw [List.append_assoc]
        exact Pattern.run_guarded away.guarded _
          (fun char listed => letters char (inside.subset listed)) _
  | literal text =>
    rcases away.literals text plain back ((List.mem_tails _ _).mpr ends) with empty | fails
    · exact absurd empty second
    · exact Pattern.run_fails fails rest

end Patterns

/-! ### The patterns of the code -/

theorem nameRest_range {char : Char} (letter : nameRest char = true) :
    48 ≤ char.toNat ∧ char.toNat ≤ 122 := by
  change (((decide (char.val ≥ 'A'.val ∧ char.val ≤ 'Z'.val) ||
      (decide (char.val ≥ 'a'.val) && decide (char.val ≤ 'z'.val))) ||
    (decide (char.val ≥ '0'.val) && decide (char.val ≤ '9'.val))) || char == '_') = true at letter
  simp only [Bool.or_eq_true, Bool.and_eq_true, decide_eq_true_eq, ge_iff_le,
    UInt32.le_iff_toNat_le, beq_iff_eq] at letter
  rcases letter with ((⟨low, high⟩ | ⟨low, high⟩) | ⟨low, high⟩) | rfl
  · exact ⟨le_trans (by decide) low, le_trans high (by decide)⟩
  · exact ⟨le_trans (by decide) low, le_trans high (by decide)⟩
  · exact ⟨le_trans (by decide) low, le_trans high (by decide)⟩
  · decide

theorem space_nameRest {char : Char} (letter : nameRest char = true) : space char = false := by
  obtain ⟨low, high⟩ := nameRest_range letter
  simp only [space, List.contains_eq_mem, decide_eq_false_iff_not, List.mem_cons, List.not_mem_nil,
    or_false]
  omega

/-- A letter that no name has. -/
theorem foreign {letter : Char} (odd : nameRest letter = false) :
    ∀ char, nameRest char = true → (char == letter) = false := by
  intro char named
  rw [beq_eq_false_iff_ne]
  rintro rfl
  cases odd.symm.trans named

theorem guarded_word (letters : List Char) {last : Char} {kind : Char → Prop} {next : Pattern}
    (away : last ∉ letters) (guarded : next.Guarded kind last) :
    (word letters next).Guarded kind last := by
  induction letters with
  | nil => exact guarded
  | cons first letters ih =>
    rw [List.mem_cons, not_or] at away
    exact ⟨beq_eq_false_iff_ne.mpr away.1, .inr (ih away.2)⟩

theorem shuns_wordIgnoreCase {letters : List Char} {char : Char} {next : Pattern} :
    (wordIgnoreCase letters next).Shuns char ↔
      (letters.all fun letter => !(foldings letter).contains char) = true ∧ next.Shuns char := by
  induction letters with
  | nil => simp [wordIgnoreCase]
  | cons first letters ih =>
    have split : wordIgnoreCase (first :: letters) next =
        one (foldings first).contains (wordIgnoreCase letters next) := rfl
    simp [split, Pattern.Shuns, ih, and_assoc]

theorem now_guarded {next : Pattern} :
    (word "now()".toList next).Guarded (fun char => nameRest char = true) ')' :=
  guarded_word "now".toList (by decide) ⟨rfl, .inl (foreign rfl)⟩

theorem nowPattern_apart : Apart nowPattern where
  percent := by simp [nowPattern, Pattern.Shuns]
  quote := by simp [nowPattern, Pattern.Shuns]
  takes := one_takes ⟨_, _, rfl⟩ (by simp [nowPattern, Pattern.Shuns])
    (by simp [nowPattern, Pattern.Shuns])
  guarded := now_guarded
  marks := by decide
  literals := by decide

theorem castPattern_apart : Apart castPattern where
  percent := by
    simp only [castPattern, Pattern.Shuns, Pattern.shuns_word]
    decide
  quote := by
    simp only [castPattern, Pattern.Shuns, Pattern.shuns_word]
    decide
  takes text rest matched := by
    obtain ⟨behind, rfl, run⟩ := run_word matched
    obtain ⟨front, rfl, keeps⟩ := run_takes (by
      simp only [Pattern.Shuns, Pattern.shuns_word]
      decide) (by
      simp only [Pattern.Shuns, Pattern.shuns_word]
      decide) run
    exact ⟨.letter ':' :: .letter ':' :: front, by simp, rfl, Keeps.of_colons.append keeps⟩
  guarded := ⟨rfl, .inl (foreign rfl)⟩
  marks := by decide
  literals := by decide

theorem forUpdatePattern_apart : Apart forUpdatePattern where
  percent := by
    simp only [forUpdatePattern, Pattern.Shuns, shuns_wordIgnoreCase, spaces]
    decide
  quote := by
    simp only [forUpdatePattern, Pattern.Shuns, shuns_wordIgnoreCase, spaces]
    decide
  takes := by
    refine one_takes ⟨_, _, rfl⟩ ?_ ?_
    · simp only [forUpdatePattern, Pattern.Shuns, shuns_wordIgnoreCase, spaces]
      decide
    · simp only [forUpdatePattern, Pattern.Shuns, shuns_wordIgnoreCase, spaces]
      decide
  guarded := ⟨rfl, .inr ⟨rfl, .inr ⟨rfl, .inr ⟨rfl, .inl fun _ => space_nameRest⟩⟩⟩⟩
  marks := by decide
  literals := by decide

/-- A call of a function, as `LEAST(`. -/
theorem call_apart {name : List Char} (letters : ∀ char ∈ name, nameRest char = true)
    (some : ∃ first rest, name = first :: rest)
    (marks : ∀ back ∈ [['s'], ['%'], ['(']],
      (word name <| many space <| word "(".toList done).fails back = true)
    (literals : ∀ text ∈ inserted, ∀ back ∈ text.tail.tails, back = [] ∨
      (word name <| many space <| word "(".toList done).fails back = true) :
    Apart (word name <| many space <| word "(".toList done) where
  percent := by
    simp only [Pattern.shuns_word, Pattern.Shuns]
    exact ⟨fun listed => absurd (letters '%' listed) (by decide), by decide⟩
  quote := by
    simp only [Pattern.shuns_word, Pattern.Shuns]
    exact ⟨fun listed => absurd (letters '\'' listed) (by decide), by decide⟩
  takes := by
    obtain ⟨first, more, rfl⟩ := some
    refine one_takes ⟨_, _, rfl⟩ ?_ ?_
    · simp only [Pattern.shuns_word, Pattern.Shuns]
      exact ⟨fun listed => absurd (letters ':' listed) (by decide), by decide⟩
    · simp only [Pattern.shuns_word, Pattern.Shuns]
      exact ⟨fun listed => absurd (letters '?' listed) (by decide), by decide⟩
  guarded := guarded_word name (fun listed => absurd (letters ')' listed) (by decide))
    ⟨rfl, fun _ => space_nameRest, rfl, .inl (foreign rfl)⟩
  marks := marks
  literals := literals

theorem leastPattern_apart : Apart leastPattern :=
  call_apart (List.all_eq_true.mp (by decide)) ⟨_, _, rfl⟩ (by decide) (by decide)

theorem greatestPattern_apart : Apart greatestPattern :=
  call_apart (List.all_eq_true.mp (by decide)) ⟨_, _, rfl⟩ (by decide) (by decide)

/-! ### Rules -/

section Rules

variable {classes : Classes} {pattern : Pattern} {text rest new : List Sym} {before : Option Sym}

theorem run_plain (percent : pattern.Shuns '%') (quote : pattern.Shuns '\'')
    (plain : ∀ symbol ∈ text, Plain symbol) :
    pattern.run (letters classes).letter (text.flatMap Sym.spell) =
      (pattern.run symbols.letter text).map (·.flatMap Sym.spell) :=
  Pattern.run_spell fun symbol listed => kept_of percent quote (plain symbol listed)

theorem string_spell (classes : Classes) (text : String) :
    (symbols.string text).flatMap Sym.spell = (letters classes).string text := by
  simp [Alphabet.string, symbols, letters, List.flatMap_map, Sym.spell]

theorem quoted_spell (classes : Classes) (text : String) :
    (symbols.quoted text).flatMap Sym.spell = (letters classes).quoted text := by
  simp [symbols, letters, Sym.spell]

/-- What a replacement takes away. -/
theorem replace_some {bounded : Bool} (away : Apart pattern)
    {found : List Sym × List Sym}
    (matched : symbols.replace classes bounded pattern new before text = some found) :
    ∃ front, front ≠ [] ∧ text = front ++ found.2 ∧ Keeps front [] ∧ found.1 = new := by
  unfold Alphabet.replace at matched
  split at matched
  · cases matched
  · obtain ⟨rest, run, rfl⟩ := Option.map_eq_some_iff.mp matched
    obtain ⟨front, nonempty, split, keeps⟩ := away.takes _ _ run
    exact ⟨front, nonempty, split, keeps, rfl⟩

theorem replace_spells (classes : Classes) (bounded : Bool) (away : Apart pattern) (new : List Sym) :
    Spells Sym.spell Plain
      ((letters classes).replace classes bounded pattern (new.flatMap Sym.spell))
      (symbols.replace classes bounded pattern new) where
  spelled _ := spell_ne_nil
  shrinks before text new rest matched := by
    obtain ⟨front, nonempty, split, -⟩ := replace_some away matched
    exact ⟨front, nonempty, split⟩
  same before text plain := by
    have run := @run_plain classes _ _ away.percent away.quote plain
    have bound : (lastLetter Sym.spell before).bind (letters classes).last =
        before.bind symbols.last := by
      simp [lastLetter, letters, symbols]
    unfold Alphabet.replace
    rw [bound]
    split
    · rfl
    · rw [run, Option.map_map, Option.map_map]
      rfl
  inside symbol plain front back first second split before rest := by
    unfold Alphabet.replace
    split
    · rfl
    · show (pattern.run some _).map _ = _
      rw [away.inside plain first second split rest, Option.map_none]

/-! ### Intervals -/

theorem take_front {front : List Sym} (split : text = front ++ rest) :
    text.take (text.length - rest.length) = front ∧
      (text.flatMap Sym.spell).take
        ((text.flatMap Sym.spell).length - (rest.flatMap Sym.spell).length) =
          front.flatMap Sym.spell := by
  subst split
  simp

theorem takeSign_spell (plain : ∀ symbol ∈ text, Plain symbol) :
    (letters classes).takeSign (text.flatMap Sym.spell) =
      (symbols.takeSign text).map fun (minus, rest) => (minus, rest.flatMap Sym.spell) := by
  cases text with
  | nil => rfl
  | cons first text =>
    have own := plain first List.mem_cons_self
    cases first with
    | letter char =>
      simp only [List.flatMap_cons, Sym.spell, List.singleton_append, Alphabet.takeSign, letters,
        symbols]
      by_cases plus : char = '+'
      · simp [plus]
      · by_cases minus : char = '-' <;> simp [plus, minus]
    | positional => rfl
    | named name => rfl
    | escape => rfl
    | literal quoted =>
      obtain ⟨rest, rfl⟩ := inserted_quoted own
      rfl

/-- A pattern for named placeholders finds those that are spelled with an identifier. -/
theorem run_named {inner : Char → Bool} (accepts : ∀ char, nameRest char = true → inner char = true)
    (stops : inner ')' = false) {name : List Char} (identifier : isIdentifier name = true)
    (rest : List Char) :
    (word "%(".toList <| one nameStart <| many inner <| word ")s".toList done).run some
      ((Sym.named name).spell ++ rest) = some rest := by
  have letters := identifier_letters identifier
  cases name with
  | nil => cases identifier
  | cons first more =>
    have starts : nameStart first = true := (Bool.and_eq_true _ _ ▸ identifier).1
    have stop : (more ++ ')' :: 's' :: rest).dropWhile inner = ')' :: 's' :: rest := by
      rw [List.dropWhile_append_of_pos]
      · simp [stops]
      · intro char listed
        exact accepts char (letters char (List.mem_cons_of_mem _ listed))
    simp only [Sym.spell, List.cons_append, List.append_assoc, List.nil_append]
    simp [word, Pattern.run, starts, stop]

theorem word_nameRest {char : Char} (letter : nameRest char = true) : classes.word char = true := by
  have range := nameRest_range letter
  rw [classes.word_ascii char (by omega)]
  exact letter

theorem placeholder_spell (plain : ∀ symbol ∈ text, Plain symbol) :
    placeholderPrefix classes (text.flatMap Sym.spell) = (symbols.placeholder text).map
      fun (taken, rest) => (taken.flatMap Sym.spell, rest.flatMap Sym.spell) := by
  cases text with
  | nil => rfl
  | cons first text =>
    have own := plain first List.mem_cons_self
    cases first with
    | letter char =>
      have other : (char == '%') = false := beq_eq_false_iff_ne.mpr own.1
      simp [placeholderPrefix, symbols, Sym.spell, word, Pattern.run, other]
    | positional => rfl
    | named name =>
      have named := @run_named classes.word (fun _ => word_nameRest)
        (classes.word_ascii ')' (by decide)) name own (text.flatMap Sym.spell)
      have taken := (@take_front (.named name :: text) text [.named name] rfl).2
      rw [List.flatMap_singleton] at taken
      rw [List.flatMap_cons] at taken ⊢
      simp only [placeholderPrefix, named, taken]
      simp [symbols]
    | escape => rfl
    | literal quoted =>
      obtain ⟨rest, rfl⟩ := inserted_quoted own
      rfl

/-- What a pattern takes off a text, in letters and in symbols. -/
theorem taken_spell (classes : Classes) (percent : pattern.Shuns '%') (quote : pattern.Shuns '\'')
    (plain : ∀ symbol ∈ text, Plain symbol) :
    ((pattern.run (letters classes).letter (text.flatMap Sym.spell)).map fun rest =>
      ((text.flatMap Sym.spell).take ((text.flatMap Sym.spell).length - rest.length), rest)) =
    ((pattern.run symbols.letter text).map fun rest =>
      (text.take (text.length - rest.length), rest)).map
        fun (taken, rest) => (taken.flatMap Sym.spell, rest.flatMap Sym.spell) := by
  rw [run_plain percent quote plain]
  cases run : pattern.run symbols.letter text with
  | none => rfl
  | some rest =>
    obtain ⟨front, split, -⟩ := Pattern.run_front run
    obtain ⟨symbolic, spelled⟩ := take_front split
    simp only [Option.map_some, symbolic, spelled]

/-- The number of an interval. -/
def numberPattern (classes : Classes) : Pattern := one classes.digit <| many classes.digit done

/-- The column of an interval. -/
def columnPattern (classes : Classes) : Pattern :=
  one nameStart <| many (fun char => classes.word char || char == '.') done

theorem expr_eq {α : Type} (alphabet : Alphabet α) (text : List α) :
    alphabet.expr classes text = (alphabet.placeholder text).or
      ((((numberPattern classes).run alphabet.letter text).map fun rest =>
          (text.take (text.length - rest.length), rest)).or
        (((columnPattern classes).run alphabet.letter text).map fun rest =>
          (text.take (text.length - rest.length), rest))) := by
  unfold Alphabet.expr numberPattern columnPattern
  cases alphabet.placeholder text with
  | some found => rfl
  | none =>
    cases (one classes.digit <| many classes.digit done).run alphabet.letter text <;> rfl

theorem number_shuns {char : Char} (ascii : char.toNat < 128) (odd : char.isDigit = false) :
    (numberPattern classes).Shuns char := by
  have refused : classes.digit char = false := (classes.digit_ascii char ascii).trans odd
  exact ⟨refused, refused, trivial⟩

theorem column_shuns {char : Char} (ascii : char.toNat < 128) (odd : nameRest char = false)
    (other : (char == '.') = false) : (columnPattern classes).Shuns char := by
  have starts : nameStart char = false := by
    simp only [nameRest, Char.isAlphanum, nameStart, Bool.or_eq_false_iff] at odd ⊢
    exact ⟨odd.1.1, odd.2⟩
  have refused : classes.word char = false := (classes.word_ascii char ascii).trans odd
  exact ⟨starts, Bool.or_eq_false_iff.mpr ⟨refused, other⟩, trivial⟩

theorem expr_spell (plain : ∀ symbol ∈ text, Plain symbol) :
    (letters classes).expr classes (text.flatMap Sym.spell) = (symbols.expr classes text).map
      fun (taken, rest) => (taken.flatMap Sym.spell, rest.flatMap Sym.spell) := by
  rw [expr_eq, expr_eq, Option.map_or, Option.map_or,
    ← taken_spell classes (number_shuns (by decide) (by decide))
      (number_shuns (by decide) (by decide)) plain,
    ← taken_spell classes (column_shuns (by decide) (by decide) (by decide))
      (column_shuns (by decide) (by decide) (by decide)) plain,
    ← placeholder_spell plain]
  rfl

/-- The parts of an interval's pattern, before the sign, before the amount and behind it. -/
def nowSpaces : Pattern := word "now()".toList <| many space done

def makeInterval (argument : String) : Pattern :=
  many space <| word "make_interval(".toList <| many space <| word argument.toList <|
    many space <| word "=>".toList <| many space done

def closing : Pattern := many space <| word ")".toList done

theorem nowSpaces_apart : Apart nowSpaces where
  percent := by
    simp only [nowSpaces, Pattern.shuns_word, Pattern.Shuns]
    decide
  quote := by
    simp only [nowSpaces, Pattern.shuns_word, Pattern.Shuns]
    decide
  takes := by
    refine one_takes ⟨_, _, rfl⟩ ?_ ?_
    · simp only [nowSpaces, Pattern.shuns_word, Pattern.Shuns]
      decide
    · simp only [nowSpaces, Pattern.shuns_word, Pattern.Shuns]
      decide
  guarded := now_guarded
  marks := by decide
  literals := by decide

/-- The letters that no part of an interval has. -/
def odd : List Char := ['%', '\'', ':', '?']

theorem odd_cases {char : Char} (listed : char ∈ odd) :
    char = '%' ∨ char = '\'' ∨ char = ':' ∨ char = '?' := by
  simpa only [odd, List.mem_cons, List.not_mem_nil, or_false] using listed

theorem away_of (argument : String)
    (clear : (odd.all fun char => !argument.toList.contains char) = true) :
    ∀ char ∈ odd, char ∉ argument.toList := by
  intro char listed
  simpa using List.all_eq_true.mp clear char listed

theorem makeInterval_shuns {char : Char} {argument : String} (listed : char ∈ odd)
    (away : char ∉ argument.toList) : (makeInterval argument).Shuns char := by
  have make := away_of "make_interval(" (by decide) char listed
  have arrow := away_of "=>" (by decide) char listed
  have blank : space char = false := by
    rcases odd_cases listed with rfl | rfl | rfl | rfl <;> rfl
  simp only [makeInterval, Pattern.shuns_word, Pattern.Shuns]
  exact ⟨blank, make, blank, away, blank, arrow, blank, trivial⟩

theorem closing_shuns {char : Char} (listed : char ∈ odd) : closing.Shuns char := by
  rcases odd_cases listed with rfl | rfl | rfl | rfl <;> exact ⟨rfl, rfl, trivial⟩

theorem interval_eq {α : Type} (alphabet : Alphabet α) (argument unit : String) (before : Option α)
    (text : List α) : alphabet.interval classes argument unit before text =
      (nowSpaces.run alphabet.letter text).bind fun text =>
        (alphabet.takeSign text).bind fun (minus, text) =>
          ((makeInterval argument).run alphabet.letter text).bind fun text =>
            (alphabet.expr classes text).bind fun (amount, text) =>
              (closing.run alphabet.letter text).bind fun rest =>
                some (alphabet.intervalSub unit minus amount, rest) :=
  rfl

theorem intervalSub_spell (classes : Classes) (unit : String) (minus : Bool) (amount : List Sym) :
    (symbols.intervalSub unit minus amount).flatMap Sym.spell =
      (letters classes).intervalSub unit minus (amount.flatMap Sym.spell) := by
  unfold Alphabet.intervalSub
  cases minus <;> simp only [Bool.false_eq_true, if_true, if_false, List.flatMap_append,
    string_spell classes, quoted_spell classes]

theorem takeSign_some {minus : Bool} (taken : symbols.takeSign text = some (minus, rest)) :
    ∃ sign, Keeps [sign] [] ∧ text = sign :: rest := by
  cases text with
  | nil => cases taken
  | cons sign text =>
    have letter : ∀ char, char = '+' ∨ char = '-' → symbols.letter sign = some char →
        Keeps [sign] [] := by
      intro char known same
      cases sign with
      | letter own =>
        cases same
        refine .of_letters fun symbol listed => ?_
        rw [List.mem_singleton.mp listed]
        rcases known with rfl | rfl
        · exact ⟨rfl, rfl⟩
        · exact ⟨rfl, rfl⟩
      | positional | named _ | escape | literal _ => cases same
    simp only [Alphabet.takeSign] at taken
    split at taken
    · rename_i plus
      cases taken
      exact ⟨sign, letter '+' (.inl rfl) plus, rfl⟩
    · split at taken
      · rename_i minus
        cases taken
        exact ⟨sign, letter '-' (.inr rfl) minus, rfl⟩
      · cases taken

theorem taken_some {amount : List Sym}
    (taken : ((pattern.run symbols.letter text).map fun rest =>
      (text.take (text.length - rest.length), rest)) = some (amount, rest)) :
    text = amount ++ rest := by
  obtain ⟨left, run, found⟩ := Option.map_eq_some_iff.mp taken
  obtain ⟨front, split, -⟩ := Pattern.run_front run
  cases found
  rw [(take_front split).1]
  exact split

theorem placeholder_some {amount : List Sym}
    (taken : symbols.placeholder text = some (amount, rest)) : text = amount ++ rest := by
  cases text with
  | nil => cases taken
  | cons first text =>
    cases first with
    | positional | named _ =>
      cases taken
      rfl
    | letter _ | escape | literal _ => cases taken

theorem expr_some {amount : List Sym} (taken : symbols.expr classes text = some (amount, rest)) :
    text = amount ++ rest := by
  rw [expr_eq] at taken
  rcases Option.or_eq_some_iff.mp taken with placed | ⟨-, taken⟩
  · exact placeholder_some placed
  · rcases Option.or_eq_some_iff.mp taken with numbered | ⟨-, column⟩
    · exact taken_some numbered
    · exact taken_some column

/-- What an interval takes away, around its amount. -/
theorem interval_some {argument unit : String} (away : ∀ char ∈ odd, char ∉ argument.toList)
    (matched : symbols.interval classes argument unit before text = some (new, rest)) :
    ∃ front amount back minus, front ≠ [] ∧ text = front ++ (amount ++ (back ++ rest)) ∧
      Keeps front [] ∧ Keeps back [] ∧ new = symbols.intervalSub unit minus amount := by
  rw [interval_eq] at matched
  obtain ⟨second, nowRun, matched⟩ := Option.bind_eq_some_iff.mp matched
  obtain ⟨⟨minus, third⟩, signed, matched⟩ := Option.bind_eq_some_iff.mp matched
  obtain ⟨fourth, makeRun, matched⟩ := Option.bind_eq_some_iff.mp matched
  obtain ⟨⟨amount, fifth⟩, taken, matched⟩ := Option.bind_eq_some_iff.mp matched
  obtain ⟨last, closeRun, matched⟩ := Option.bind_eq_some_iff.mp matched
  cases matched
  have shuns : ∀ char ∈ odd, (makeInterval argument).Shuns char := fun char listed =>
    makeInterval_shuns listed (away char listed)
  obtain ⟨front, nonempty, rfl, frontKeeps⟩ := nowSpaces_apart.takes _ _ nowRun
  obtain ⟨sign, signKeeps, rfl⟩ := takeSign_some signed
  obtain ⟨middle, rfl, middleKeeps⟩ :=
    run_takes (shuns ':' (by decide)) (shuns '?' (by decide)) makeRun
  obtain rfl := expr_some taken
  obtain ⟨back, rfl, backKeeps⟩ :=
    run_takes (closing_shuns (by decide)) (closing_shuns (by decide)) closeRun
  exact ⟨front ++ ([sign] ++ middle), amount, back, minus, by simp, by simp,
    frontKeeps.append (signKeeps.append middleKeeps), backKeeps, rfl⟩

theorem interval_spells (classes : Classes) (argument unit : String)
    (away : ∀ char ∈ odd, char ∉ argument.toList) :
    Spells Sym.spell Plain ((letters classes).interval classes argument unit)
      (symbols.interval classes argument unit) where
  spelled _ := spell_ne_nil
  shrinks before text new rest matched := by
    obtain ⟨front, amount, back, minus, nonempty, split, -⟩ := interval_some away matched
    exact ⟨front ++ (amount ++ back), by simp [nonempty], by simp [split]⟩
  same before text plain := by
    rw [interval_eq, interval_eq, run_plain nowSpaces_apart.percent nowSpaces_apart.quote plain]
    cases nowRun : nowSpaces.run symbols.letter text with
    | none => rfl
    | some second =>
      have plain : ∀ symbol ∈ second, Plain symbol := fun symbol listed =>
        plain symbol ((Pattern.run_suffix nowRun).subset listed)
      simp only [Option.map_some, Option.bind_some]
      rw [takeSign_spell plain]
      cases signed : symbols.takeSign second with
      | none => rfl
      | some found =>
        obtain ⟨minus, third⟩ := found
        obtain ⟨sign, -, rfl⟩ := takeSign_some signed
        have plain : ∀ symbol ∈ third, Plain symbol := fun symbol listed =>
          plain symbol (List.mem_cons_of_mem _ listed)
        simp only [Option.map_some, Option.bind_some]
        rw [run_plain (makeInterval_shuns (by decide) (away '%' (by decide)))
          (makeInterval_shuns (by decide) (away '\'' (by decide))) plain]
        cases makeRun : (makeInterval argument).run symbols.letter third with
        | none => rfl
        | some fourth =>
          have plain : ∀ symbol ∈ fourth, Plain symbol := fun symbol listed =>
            plain symbol ((Pattern.run_suffix makeRun).subset listed)
          simp only [Option.map_some, Option.bind_some]
          rw [expr_spell plain]
          cases taken : symbols.expr classes fourth with
          | none => rfl
          | some found =>
            obtain ⟨amount, fifth⟩ := found
            have plain : ∀ symbol ∈ fifth, Plain symbol := fun symbol listed =>
              plain symbol (expr_some taken ▸ List.mem_append_right _ listed)
            simp only [Option.map_some, Option.bind_some]
            rw [run_plain (closing_shuns (by decide)) (closing_shuns (by decide)) plain]
            cases closing.run symbols.letter fifth with
            | none => rfl
            | some rest =>
              simp only [Option.map_some, Option.bind_some, intervalSub_spell classes]
  inside symbol plain front back first second split before rest := by
    rw [interval_eq]
    have none := nowSpaces_apart.inside plain first second split rest
    show (nowSpaces.run some _).bind _ = _
    rw [none, Option.bind_none]

/-! ### The rewriting of a chunk -/

theorem intervalSub_fresh {unit : String} (known : unit = "seconds" ∨ unit = "days") (minus : Bool)
    (amount : List Sym) : ∃ early late, symbols.intervalSub unit minus amount =
      early ++ (amount ++ late) ∧ ∀ symbol ∈ early ++ late, fresh symbol = true := by
  cases minus with
  | false =>
    refine ⟨symbols.string "strftime(" ++ symbols.quoted "'%Y-%m-%d %H:%M:%f'" ++
      symbols.string ", " ++ symbols.quoted "'now'" ++ symbols.string ", printf(" ++
      symbols.quoted ("'%+d " ++ unit ++ "'") ++ symbols.string ", " ++ symbols.string "(",
      symbols.string ")" ++ symbols.string "))", by simp [Alphabet.intervalSub], ?_⟩
    rcases known with rfl | rfl <;> decide
  | true =>
    refine ⟨symbols.string "strftime(" ++ symbols.quoted "'%Y-%m-%d %H:%M:%f'" ++
      symbols.string ", " ++ symbols.quoted "'now'" ++ symbols.string ", printf(" ++
      symbols.quoted ("'%+d " ++ unit ++ "'") ++ symbols.string ", " ++ symbols.string "(-(",
      symbols.string "))" ++ symbols.string "))", by simp [Alphabet.intervalSub], ?_⟩
    rcases known with rfl | rfl <;> decide

/-- A rule that takes letters away and puts fresh symbols in, around an amount that stays. -/
structure Rewrites (rule : Rule Sym) : Prop where
  shrinks : rule.Shrinks
  around : ∀ before text new rest, rule before text = some (new, rest) →
    ∃ front amount back early late, text = front ++ (amount ++ (back ++ rest)) ∧
      Keeps front [] ∧ Keeps back [] ∧ new = early ++ (amount ++ late) ∧
        ∀ symbol ∈ early ++ late, fresh symbol = true

theorem replace_rewrites {bounded : Bool} (away : Apart pattern)
    (own : ∀ symbol ∈ new, fresh symbol = true) :
    Rewrites (symbols.replace classes bounded pattern new) where
  shrinks before text _ rest matched := by
    obtain ⟨front, nonempty, split, -⟩ := replace_some away matched
    exact ⟨front, nonempty, split⟩
  around before text _ rest matched := by
    obtain ⟨front, -, split, keeps, same⟩ := replace_some away matched
    exact ⟨front, [], [], new, [], by simpa using split, keeps, .refl [], by simpa using same,
      by simpa using own⟩

theorem interval_rewrites {argument unit : String} (known : unit = "seconds" ∨ unit = "days")
    (away : ∀ char ∈ odd, char ∉ argument.toList) :
    Rewrites (symbols.interval classes argument unit) where
  shrinks before text new rest matched := by
    obtain ⟨front, amount, back, minus, nonempty, split, -⟩ := interval_some away matched
    exact ⟨front ++ (amount ++ back), by simp [nonempty], by simp [split]⟩
  around before text new rest matched := by
    obtain ⟨front, amount, back, minus, -, split, opens, closes, rfl⟩ := interval_some away matched
    obtain ⟨early, late, new, own⟩ := intervalSub_fresh known minus amount
    exact ⟨front, amount, back, early, late, split, opens, closes, new, own⟩

end Rules

section Rewrites

variable {rule : Rule Sym} {before : Option Sym} {text : List Sym}

theorem Rewrites.keeps (rewrites : Rewrites rule) : Keeps text (sub rule before 0 text) := by
  refine sub_induction rewrites.shrinks _ (.refl []) (fun first text result keeps => ?_)
    (fun before front new rest result _ matched keeps => ?_) before text
  · exact (Keeps.refl [first]).append keeps
  · obtain ⟨early, amount, late, opening, closing, split, opens, closes, rfl, own⟩ :=
      rewrites.around _ _ _ _ matched
    have ownEarly := Keeps.of_fresh fun symbol listed =>
      own symbol (List.mem_append_left closing listed)
    have ownLate := Keeps.of_fresh fun symbol listed =>
      own symbol (List.mem_append_right opening listed)
    have whole := (opens.append ownEarly).append
      ((Keeps.refl amount).append ((closes.append ownLate).append keeps))
    rw [split]
    simpa using whole

theorem Rewrites.plain (rewrites : Rewrites rule) (plain : ∀ symbol ∈ text, Plain symbol) :
    ∀ symbol ∈ sub rule before 0 text, Plain symbol := by
  refine sub_induction rewrites.shrinks (fun text result => (∀ symbol ∈ text, Plain symbol) →
      ∀ symbol ∈ result, Plain symbol) (fun _ => nofun)
    (fun first text result keeps plain symbol listed => ?_)
    (fun before front new rest result _ matched keeps plain symbol listed => ?_) before text plain
  · rcases List.mem_cons.mp listed with rfl | behind
    · exact plain symbol List.mem_cons_self
    · exact keeps (fun symbol listed => plain symbol (List.mem_cons_of_mem _ listed)) symbol behind
  · obtain ⟨early, amount, late, opening, closing, split, -, -, rfl, own⟩ :=
      rewrites.around _ _ _ _ matched
    simp only [List.mem_append] at listed own
    rcases listed with (opened | taken | closed) | behind
    · exact plain_of_fresh (own symbol (.inl opened))
    · exact plain symbol (split ▸ by simp [taken])
    · exact plain_of_fresh (own symbol (.inr closed))
    · exact keeps (fun symbol listed => plain symbol (List.mem_append_right _ listed)) symbol behind

/-- A chunk, in letters and in symbols, after some of the rewriting. -/
structure Stage (source : List Sym) (text : List Char) (chunk : List Sym) : Prop where
  spelled : text = chunk.flatMap Sym.spell
  plain : ∀ symbol ∈ chunk, Plain symbol
  keeps : Keeps source chunk

theorem Stage.next {source chunk : List Sym} {text : List Char} {letters : Rule Char}
    (stage : Stage source text chunk) (spells : Spells Sym.spell Plain letters rule)
    (rewrites : Rewrites rule) :
    Stage source (sub letters none 0 text) (sub rule none 0 chunk) where
  spelled := by
    rw [stage.spelled]
    exact spells.sub none chunk stage.plain
  plain := rewrites.plain stage.plain
  keeps := stage.keeps.trans rewrites.keeps

/-- The chunk is restructured in letters as it is in symbols, and keeps what it ought to. -/
theorem restructure_stage (classes : Classes) {chunk : List Sym}
    (plain : ∀ symbol ∈ chunk, Plain symbol) :
    Stage chunk ((letters classes).restructure classes (chunk.flatMap Sym.spell))
      (symbols.restructure classes chunk) := by
  have stage : Stage chunk (chunk.flatMap Sym.spell) chunk := ⟨rfl, plain, .refl chunk⟩
  have unlocked := stage.next (replace_spells classes true
    forUpdatePattern_apart []) (replace_rewrites forUpdatePattern_apart (by decide))
  have seconds := unlocked.next (interval_spells classes "secs"
    "seconds" (away_of _ (by decide))) (interval_rewrites (.inl rfl) (away_of _ (by decide)))
  have days := seconds.next (interval_spells classes "days"
    "days" (away_of _ (by decide))) (interval_rewrites (.inr rfl) (away_of _ (by decide)))
  have now := days.next (replace_spells classes true nowPattern_apart
    (symbols.string "(strftime(" ++ symbols.quoted "'%Y-%m-%d %H:%M:%f'" ++ symbols.string ", " ++
      symbols.quoted "'now'" ++ symbols.string "))")) (replace_rewrites nowPattern_apart (by decide))
  have uncast := now.next (replace_spells classes false
    castPattern_apart []) (replace_rewrites castPattern_apart (by decide))
  have least := uncast.next (replace_spells classes true
    leastPattern_apart (symbols.string "MIN(")) (replace_rewrites leastPattern_apart (by decide))
  have greatest := least.next (replace_spells classes true
    greatestPattern_apart (symbols.string "MAX(")) (replace_rewrites greatestPattern_apart (by decide))
  exact greatest

end Rewrites

end QueueWorkflows.SqlTranslation
