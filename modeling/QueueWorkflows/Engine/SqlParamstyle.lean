import QueueWorkflows.Engine.SqlPlaceholders

/-! The last step of the translation, the parameter style. On symbols it is the rendering, except
where the second half of an escape makes a placeholder with what follows it. -/

namespace QueueWorkflows.SqlTranslation

open Scanning
open Scanning.Pattern (one many option done word)

/-! ### Rules of the parameter style -/

/-- A rule that replaces the matches of a pattern, whatever stands before them. -/
structure Simple (rule : Rule Char) (pattern : Pattern) : Prop where
  blind : ∀ before other text, rule before text = rule other text
  none : ∀ before text, pattern.run some text = none → rule before text = none

theorem namedParam_simple : Simple namedParam namedParamPattern where
  blind _ _ _ := rfl
  none _ _ unmatched := by rw [namedParam, unmatched, Option.map_none]

theorem replaceText_simple {old new : String} :
    Simple (replaceText old new) (word old.toList done) where
  blind _ _ _ := rfl
  none _ _ unmatched := by rw [replaceText, unmatched, Option.map_none]

section Simple

variable {rule : Rule Char} {pattern : Pattern} {front rest new : List Char} {before : Option Char}

theorem Simple.pass (simple : Simple rule pattern) (unmatched : ∀ back, back ≠ [] → back <:+ front →
    pattern.run some (back ++ rest) = Option.none) :
    sub rule before 0 (front ++ rest) = front ++ sub rule Option.none 0 rest := by
  rw [sub_pass fun back nonempty ends before => simple.none _ _ (unmatched back nonempty ends),
    sub_blind simple.blind Option.none]

theorem Simple.fails (simple : Simple rule pattern) (front : List Char)
    (fails : ∀ back ∈ front.tails, back = [] ∨ pattern.fails back = true) :
    sub rule before 0 (front ++ rest) = front ++ sub rule Option.none 0 rest := by
  refine simple.pass fun back nonempty ends => ?_
  rcases fails back ((List.mem_tails _ _).mpr ends) with empty | fails
  · exact absurd empty nonempty
  · exact Pattern.run_fails fails rest

theorem Simple.keep (simple : Simple rule pattern) {first : Char}
    (unmatched : pattern.run some (first :: rest) = Option.none) :
    sub rule before 0 (first :: rest) = first :: sub rule Option.none 0 rest := by
  rw [sub_keep (simple.none _ _ unmatched), sub_blind simple.blind Option.none]

theorem Simple.match (simple : Simple rule pattern) (front new : List Char) (nonempty : front ≠ [])
    (matched : rule Option.none (front ++ rest) = some (new, rest)) :
    sub rule before 0 (front ++ rest) = new ++ sub rule Option.none 0 rest := by
  rw [sub_blind simple.blind Option.none, sub_match nonempty matched,
    sub_blind simple.blind Option.none]

end Simple

/-! ### The parameter style -/

section Paramstyle

variable {front rest : List Char}

theorem paramstyle_eq (chunk : List Char) : paramstyle chunk =
    sub (replaceText "%%" "%") none 0 (sub (replaceText "%s" "?") none 0
      (sub namedParam none 0 chunk)) :=
  rfl

/-- A text without percent signs. -/
theorem replaceText_letters {old new : String}
    (starts : ∃ next, word old.toList done = one (· == '%') next) (away : '%' ∉ front) :
    sub (replaceText old new) none 0 (front ++ rest) =
      front ++ sub (replaceText old new) none 0 rest := by
  obtain ⟨next, starts⟩ := starts
  refine replaceText_simple.pass fun back nonempty ends => ?_
  obtain ⟨first, more, rfl⟩ := List.exists_cons_of_ne_nil nonempty
  have refused : (first == '%') = false := by
    rw [beq_eq_false_iff_ne]
    rintro rfl
    exact away (ends.subset List.mem_cons_self)
  rw [starts]
  simp [Pattern.run, refused]

theorem paramstyle_front (front : List Char)
    (named : ∀ back ∈ front.tails, back = [] ∨ namedParamPattern.fails back = true)
    (positional : ∀ back ∈ front.tails, back = [] ∨ (word "%s".toList done).fails back = true)
    (escape : ∀ back ∈ front.tails, back = [] ∨ (word "%%".toList done).fails back = true) :
    paramstyle (front ++ rest) = front ++ paramstyle rest := by
  rw [paramstyle_eq, paramstyle_eq, namedParam_simple.fails _ named,
    replaceText_simple.fails _ positional, replaceText_simple.fails _ escape]

theorem paramstyle_letter {char : Char} (other : char ≠ '%') :
    paramstyle (char :: rest) = char :: paramstyle rest := by
  have refused : (char == '%') = false := beq_eq_false_iff_ne.mpr other
  have fails : ∀ next : Pattern, ∀ back ∈ [char].tails,
      back = [] ∨ (one (· == '%') next).fails back = true := by
    intro next back listed
    rcases List.suffix_cons_iff.mp ((List.mem_tails _ _).mp listed) with rfl | none
    · exact .inr (by simp [Pattern.fails, refused])
    · exact .inl (List.suffix_nil.mp none)
  exact paramstyle_front [char] (fails _) (fails _) (fails _)

theorem paramstyle_letters (away : '%' ∉ front) : paramstyle (front ++ rest) = front ++ paramstyle rest := by
  induction front with
  | nil => rfl
  | cons first front ih =>
    rw [List.mem_cons, not_or] at away
    rw [List.cons_append, paramstyle_letter (Ne.symm away.1), ih away.2, List.cons_append]

theorem paramstyle_literal {text : List Char} (listed : text ∈ inserted) :
    paramstyle (text ++ rest) = text ++ paramstyle rest := by
  have fails : ∀ text ∈ inserted, ∀ back ∈ text.tails, (back = [] ∨
      namedParamPattern.fails back = true) ∧ (back = [] ∨ (word "%s".toList done).fails back = true) ∧
        (back = [] ∨ (word "%%".toList done).fails back = true) := by
    decide
  exact paramstyle_front _ (fun back ends => (fails text listed back ends).1)
    (fun back ends => (fails text listed back ends).2.1)
    fun back ends => (fails text listed back ends).2.2

theorem paramstyle_positional : paramstyle ('%' :: 's' :: rest) = '?' :: paramstyle rest := by
  have named : sub namedParam none 0 ('%' :: 's' :: rest) = '%' :: 's' :: sub namedParam none 0 rest :=
    namedParam_simple.fails ['%', 's'] (by decide)
  have positional : ∀ rest, sub (replaceText "%s" "?") none 0 ('%' :: 's' :: rest) =
      '?' :: sub (replaceText "%s" "?") none 0 rest := fun rest =>
    replaceText_simple.match ['%', 's'] ['?'] (by simp) rfl
  have escape : ∀ rest, sub (replaceText "%%" "%") none 0 ('?' :: rest) =
      '?' :: sub (replaceText "%%" "%") none 0 rest := fun rest =>
    replaceText_simple.fails ['?'] (by decide)
  rw [paramstyle_eq, paramstyle_eq, named, positional, escape]

theorem namedParam_match {name : List Char} (identifier : isIdentifier name = true) :
    namedParam none ((Sym.named name).spell ++ rest) = some (':' :: name, rest) := by
  have letters := identifier_letters identifier
  have taken : (((Sym.named name).spell ++ rest).drop 2).takeWhile nameRest = name := by
    simp only [Sym.spell, List.cons_append, List.drop_succ_cons, List.drop_zero, List.append_assoc]
    rw [List.takeWhile_append_of_pos letters]
    simp [nameRest]
  have run := @run_named nameRest (fun _ => id) (by decide) name identifier rest
  unfold namedParam namedParamPattern
  rw [run, Option.map_some, taken]

theorem named_away {name : List Char} (identifier : isIdentifier name = true) : '%' ∉ ':' :: name := by
  intro listed
  rcases List.mem_cons.mp listed with colon | inside
  · cases colon
  · exact absurd (identifier_letters identifier '%' inside) (by decide)

theorem paramstyle_named {name : List Char} (identifier : isIdentifier name = true) :
    paramstyle ((Sym.named name).spell ++ rest) = ':' :: name ++ paramstyle rest := by
  have away := named_away identifier
  have matched := @namedParam_match rest name identifier
  rw [paramstyle_eq, paramstyle_eq, namedParam_simple.match _ _ (by simp [Sym.spell]) matched,
    replaceText_letters ⟨_, rfl⟩ away, replaceText_letters ⟨_, rfl⟩ away]

/-- The first half of an escape stays as it is. -/
theorem namedParam_escape : sub namedParam none 0 ('%' :: '%' :: rest) =
    '%' :: sub namedParam none 0 ('%' :: rest) :=
  namedParam_simple.keep rfl

theorem namedParam_head (other : rest.head? ≠ some 's') :
    (sub namedParam none 0 rest).head? ≠ some 's' := by
  cases rest with
  | nil => simp
  | cons first rest =>
    rw [sub]
    cases matched : namedParam none (first :: rest) with
    | none => simpa using other
    | some found =>
      obtain ⟨left, -, rfl⟩ := Option.map_eq_some_iff.mp matched
      simp

theorem paramstyle_escape (unnamed : namedParamPattern.run some ('%' :: rest) = none)
    (other : rest.head? ≠ some 's') : paramstyle ('%' :: '%' :: rest) = '%' :: paramstyle rest := by
  have behind := namedParam_head other
  have positional : ∀ text : List Char, text.head? ≠ some 's' →
      sub (replaceText "%s" "?") none 0 ('%' :: '%' :: text) =
        '%' :: '%' :: sub (replaceText "%s" "?") none 0 text := by
    intro text other
    have second : (word "%s".toList done).run some ('%' :: text) = none := by
      cases text with
      | nil => rfl
      | cons first text =>
        have refused : (first == 's') = false := by simpa using other
        simp [word, Pattern.run, refused]
    rw [replaceText_simple.keep rfl, replaceText_simple.keep second]
  have escape : ∀ text, sub (replaceText "%%" "%") none 0 ('%' :: '%' :: text) =
      '%' :: sub (replaceText "%%" "%") none 0 text := fun text =>
    replaceText_simple.match ['%', '%'] ['%'] (by simp) rfl
  rw [paramstyle_eq, paramstyle_eq, namedParam_escape, namedParam_simple.keep unnamed, positional _ behind, escape]

/-- The second half of an escape and an `s` are taken for a placeholder. -/
theorem paramstyle_clash : paramstyle ('%' :: '%' :: 's' :: rest) = '%' :: '?' :: paramstyle rest := by
  have named : sub namedParam none 0 ('%' :: 's' :: rest) = '%' :: 's' :: sub namedParam none 0 rest :=
    namedParam_simple.fails ['%', 's'] (by decide)
  have positional : ∀ text, sub (replaceText "%s" "?") none 0 ('%' :: 's' :: text) =
      '?' :: sub (replaceText "%s" "?") none 0 text := fun text =>
    replaceText_simple.match ['%', 's'] ['?'] (by simp) rfl
  rw [paramstyle_eq, paramstyle_eq, namedParam_escape, named, replaceText_simple.keep rfl, positional,
    replaceText_simple.keep rfl, replaceText_simple.keep rfl]

/-- The second half of an escape, a name and an `s` are taken for a placeholder. -/
theorem paramstyle_clash_named {name : List Char} (identifier : isIdentifier name = true) :
    paramstyle ('%' :: ((Sym.named name).spell ++ rest)) = '%' :: ':' :: name ++ paramstyle rest := by
  have away := named_away identifier
  have replaced : sub namedParam none 0 ((Sym.named name).spell ++ rest) =
      ':' :: name ++ sub namedParam none 0 rest :=
    namedParam_simple.match _ _ (by simp [Sym.spell]) (namedParam_match identifier)
  have escape : sub namedParam none 0 ('%' :: ((Sym.named name).spell ++ rest)) =
      '%' :: sub namedParam none 0 ((Sym.named name).spell ++ rest) := namedParam_escape
  rw [paramstyle_eq, paramstyle_eq, escape, replaced, List.cons_append,
    replaceText_simple.keep rfl, ← List.cons_append, replaceText_letters ⟨_, rfl⟩ away,
    List.cons_append, replaceText_simple.keep rfl, ← List.cons_append,
    replaceText_letters ⟨_, rfl⟩ away]
  simp

end Paramstyle

/-! ### Symbols in the parameter style -/

section Symbols

variable {symbol : Sym} {text rest : List Sym}

theorem head_letter {char : Char} (odd : char ≠ '%' ∧ char ≠ '\'')
    (plain : ∀ symbol ∈ text, Plain symbol) :
    (text.flatMap Sym.spell).head? = some char ↔ text.head? = some (.letter char) := by
  cases text with
  | nil => simp
  | cons first text =>
    have own := plain first List.mem_cons_self
    cases first with
    | letter other => simp [Sym.spell]
    | positional | named _ | escape => simp [Sym.spell, odd.1.symm]
    | literal quoted =>
      obtain ⟨rest, rfl⟩ := inserted_quoted own
      simp [Sym.spell, odd.2.symm]

/-- What follows an escape clashes in letters as it does in symbols. -/
theorem clashes_spell (plain : ∀ symbol ∈ text, Plain symbol) : clashes text = true ↔
    (text.flatMap Sym.spell).head? = some 's' ∨
      (namedParamPattern.run some ('%' :: text.flatMap Sym.spell)).isSome = true := by
  have shuns : ∀ char, char = '%' ∨ char = '\'' →
      (word "(".toList <| one nameStart <| many nameRest <| word ")s".toList done).Shuns char := by
    rintro char (rfl | rfl)
    · simp only [Pattern.shuns_word, Pattern.Shuns]
      decide
    · simp only [Pattern.shuns_word, Pattern.Shuns]
      decide
  have named : namedParamPattern.run some ('%' :: text.flatMap Sym.spell) =
      (word "(".toList <| one nameStart <| many nameRest <| word ")s".toList done).run some
        (text.flatMap Sym.spell) := rfl
  rw [named, Pattern.run_spell fun symbol listed =>
      kept_of (shuns '%' (.inl rfl)) (shuns '\'' (.inr rfl)) (plain symbol listed),
    head_letter (by decide) plain, Option.isSome_map, clashes, Bool.or_eq_true, beq_iff_eq]

theorem letters_of {accepts : Char → Bool}
    (all : ∀ symbol ∈ text, (symbols.letter symbol).any accepts = true) :
    ∃ chars : List Char, chars.all accepts = true ∧ text = chars.map .letter := by
  induction text with
  | nil => exact ⟨[], rfl, rfl⟩
  | cons symbol text ih =>
    obtain ⟨chars, rest, rfl⟩ := ih fun symbol listed => all symbol (List.mem_cons_of_mem _ listed)
    obtain ⟨char, single, accepted⟩ := Pattern.any_some (all symbol List.mem_cons_self)
    cases symbol with
    | letter own =>
      cases single
      exact ⟨char :: chars, by rw [List.all_cons, accepted, rest]; rfl, rfl⟩
    | positional | named _ | escape | literal _ => cases single

/-- What a name in a pattern stands for. -/
theorem run_identifier (run : (one nameStart <| many nameRest <| word ")s".toList done).run
    symbols.letter text = some rest) : ∃ name, isIdentifier name = true ∧
      text = (name ++ [')', 's']).map .letter ++ rest := by
  cases text with
  | nil => cases run
  | cons first text =>
    rw [Pattern.run] at run
    split at run
    · rename_i accepted
      obtain ⟨start, same, starts⟩ := Pattern.any_some accepted
      obtain ⟨behind, left, ended⟩ := run_word run
      cases ended
      obtain ⟨more, rests, taken⟩ := @letters_of
        (text.takeWhile fun symbol => (symbols.letter symbol).any nameRest) nameRest
        fun symbol listed => by
          have held := List.mem_takeWhile_imp listed
          exact held
      cases first with
      | letter own =>
        cases same
        refine ⟨start :: more, by rw [isIdentifier, starts, rests]; rfl, ?_⟩
        rw [← @List.takeWhile_append_dropWhile _ (fun symbol => (symbols.letter symbol).any nameRest) text,
          taken, left]
        simp
      | positional | named _ | escape | literal _ => cases same
    · cases run

/-- What stands behind an escape where it clashes. -/
theorem clashes_cases (clash : clashes text = true) : (∃ rest, text = .letter 's' :: rest) ∨
    ∃ name rest, isIdentifier name = true ∧
      text = ('(' :: name ++ [')', 's']).map .letter ++ rest := by
  rw [clashes, Bool.or_eq_true, beq_iff_eq] at clash
  rcases clash with starts | named
  · exact .inl (List.head?_eq_some_iff.mp starts)
  · obtain ⟨rest, run⟩ := Option.isSome_iff_exists.mp named
    obtain ⟨behind, rfl, inner⟩ := run_word run
    obtain ⟨name, identifier, rfl⟩ := run_identifier inner
    exact .inr ⟨name, rest, identifier, by simp⟩

/-- What stands behind a literal does not clash with an escape in front of it. -/
theorem clashes_literal (front : List Sym) (text : List Char) (rest : List Sym) :
    clashes (front ++ .literal text :: rest) = clashes front := by
  unfold clashes
  rw [Pattern.run_barrier (by rfl), Option.isSome_map]
  cases front <;> rfl

theorem apart_literal (front : List Sym) (text : List Char) (rest : List Sym) :
    apart (front ++ .literal text :: rest) = (apart front && apart rest) := by
  induction front with
  | nil => rfl
  | cons first front ih =>
    cases first with
    | escape => simp only [List.cons_append, apart, ih, clashes_literal, Bool.and_assoc]
    | letter _ | positional | named _ | literal _ => exact ih

theorem paramstyle_unclashed (plain : ∀ symbol ∈ text, Plain symbol) (unclashed : clashes text = false) :
    paramstyle ('%' :: '%' :: text.flatMap Sym.spell) = '%' :: paramstyle (text.flatMap Sym.spell) := by
  have free := (not_congr (clashes_spell plain)).mp (by simp [unclashed])
  rw [not_or, Bool.not_eq_true, Option.isSome_eq_false_iff, Option.isNone_iff_eq_none] at free
  exact paramstyle_escape free.2 free.1

/-- In the parameter style the symbols are rendered, where no escape clashes with what follows it. -/
theorem paramstyle_apart (plain : ∀ symbol ∈ text, Plain symbol) (free : apart text = true) :
    paramstyle (text.flatMap Sym.spell) = text.flatMap Sym.render := by
  induction text with
  | nil => rfl
  | cons first text ih =>
    have own := plain first List.mem_cons_self
    have later : ∀ symbol ∈ text, Plain symbol := fun symbol listed =>
      plain symbol (List.mem_cons_of_mem _ listed)
    have ih := ih later
    rw [List.flatMap_cons, List.flatMap_cons]
    cases first with
    | letter char =>
      rw [Sym.spell, Sym.render, List.singleton_append, List.singleton_append, paramstyle_letter own.1,
        ih free]
    | positional =>
      show paramstyle ('%' :: 's' :: text.flatMap Sym.spell) = '?' :: text.flatMap Sym.render
      rw [paramstyle_positional, ih free]
    | named name => rw [paramstyle_named own, ih free, Sym.render]
    | literal quoted => rw [Sym.spell, Sym.render, paramstyle_literal own, ih free]
    | escape =>
      simp only [apart, Bool.and_eq_true, Bool.not_eq_true'] at free
      show paramstyle ('%' :: '%' :: text.flatMap Sym.spell) = '%' :: text.flatMap Sym.render
      rw [paramstyle_unclashed later free.1, ih free.2]

end Symbols

end QueueWorkflows.SqlTranslation
