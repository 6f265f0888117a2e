import QueueWorkflows.Engine.SqlParamstyle

/-! The signs with which SQLite's placeholders begin, counted between the escapes. A statement has
an even or an odd number of them between two escapes, whatever colons are taken out in twos; where an
escape clashes with what follows it, the parameter style puts one sign more behind it. -/

namespace QueueWorkflows.SqlTranslation

open Scanning

/-! ### Counting in a text -/

/-- From the right, whether a quotation is open, and between the percent signs outside of
quotations whether the number of signs is odd. -/
def tally (char : Char) : Bool × List Bool → Bool × List Bool
  | (quoted, counts) =>
    if char = '\'' then (!quoted, counts)
    else if quoted then (true, counts)
    else if char = '%' then (false, false :: counts)
    else if char = '?' ∨ char = ':' then (false, counts.modifyHead not)
    else (false, counts)

/-- A text that is all in quotations. -/
def Quoted (text : List Char) : Prop :=
  ∀ counts, text.foldr tally (false, counts) = (false, counts)

section Tally

variable {counts : List Bool} {char : Char} {text : List Char}

theorem tally_letter (percent : char ≠ '%') (quote : char ≠ '\'') :
    tally char (false, counts) =
      (false, if char = '?' ∨ char = ':' then counts.modifyHead not else counts) := by
  rw [tally, if_neg quote, if_neg Bool.false_ne_true, if_neg percent]
  split <;> rfl

theorem tally_inside (quote : char ≠ '\'') : tally char (true, counts) = (true, counts) := by
  rw [tally, if_neg quote, if_pos rfl]

/-- The letters of a name are not counted. -/
theorem name_letter (letter : nameRest char = true) :
    char ≠ '%' ∧ char ≠ '\'' ∧ char ≠ '?' ∧ char ≠ ':' := by
  have others : ∀ other ∈ ['%', '\'', '?', ':'], char ≠ other := by
    rintro other listed rfl
    simp only [List.mem_cons, List.not_mem_nil, or_false] at listed
    rcases listed with rfl | rfl | rfl | rfl <;> cases letter
  exact ⟨others '%' (by decide), others '\'' (by decide), others '?' (by decide),
    others ':' (by decide)⟩

theorem tally_name (letters : ∀ char ∈ text, nameRest char = true) :
    text.foldr tally (false, counts) = (false, counts) := by
  induction text with
  | nil => rfl
  | cons first text ih =>
    obtain ⟨percent, quote, question, colon⟩ := name_letter (letters first List.mem_cons_self)
    rw [List.foldr_cons, ih fun char listed => letters char (List.mem_cons_of_mem _ listed),
      tally_letter percent quote, if_neg (not_or.mpr ⟨question, colon⟩)]

theorem inserted_quoted_whole (listed : text ∈ inserted) : Quoted text := by
  intro counts
  simp only [inserted, List.mem_cons, List.not_mem_nil, or_false] at listed
  rcases listed with rfl | rfl | rfl | rfl <;> rfl

end Tally

/-! ### Counting in symbols -/

def weigh : Sym → List Bool → List Bool
  | .letter char, counts => if char = '?' ∨ char = ':' then counts.modifyHead not else counts
  | .positional, counts | .named _, counts => counts.modifyHead not
  | .escape, counts => false :: counts
  | .literal _, counts => counts

/-- A symbol that is counted as it is rendered. -/
def Sound : Sym → Prop
  | .letter char => char ≠ '%' ∧ char ≠ '\''
  | .positional | .escape => True
  | .named name => isIdentifier name = true
  | .literal text => Quoted text

section Weigh

variable {counts : List Bool} {symbol : Sym} {source out : List Sym}

theorem tally_symbol (sound : Sound symbol) :
    symbol.render.foldr tally (false, counts) = (false, weigh symbol counts) := by
  cases symbol with
  | letter char => exact tally_letter sound.1 sound.2
  | positional => rfl
  | named name =>
    rw [Sym.render, List.foldr_cons, tally_name (identifier_letters sound)]
    rfl
  | escape => rfl
  | literal text => exact sound counts

theorem tally_render (sound : ∀ symbol ∈ out, Sound symbol) :
    (out.flatMap Sym.render).foldr tally (false, counts) = (false, out.foldr weigh counts) := by
  induction out with
  | nil => rfl
  | cons first out ih =>
    rw [List.flatMap_cons, List.foldr_append,
      ih fun symbol listed => sound symbol (List.mem_cons_of_mem _ listed),
      tally_symbol (sound first List.mem_cons_self), List.foldr_cons]

theorem weigh_outline : (outline out).foldr weigh counts = out.foldr weigh counts := by
  induction out with
  | nil => rfl
  | cons first out ih =>
    rw [List.foldr_cons, ← ih]
    cases first with
    | letter char =>
      by_cases sign : char = '?' ∨ char = ':'
      · rw [outline, List.filter_cons_of_pos (by simpa [Sym.isMark, Sym.isSign] using sign)]
        rfl
      · rw [outline, List.filter_cons_of_neg (by simpa [Sym.isMark, Sym.isSign] using sign), weigh,
          if_neg sign]
        rfl
    | literal text => rfl
    | positional | named _ | escape => rfl

theorem not_twice : (counts.modifyHead not).modifyHead not = counts := by
  cases counts <;> simp

theorem Uncasts.weigh (uncasts : Uncasts source out) :
    out.foldr weigh counts = source.foldr weigh counts := by
  cases uncasts with
  | pair front back =>
    rw [List.foldr_append, List.foldr_append, List.foldr_cons, List.foldr_cons]
    have colon : ∀ counts, SqlTranslation.weigh (.letter ':') counts = counts.modifyHead not :=
      fun _ => rfl
    rw [colon, colon, not_twice]

theorem weigh_steps (steps : Relation.ReflTransGen Uncasts source out) :
    out.foldr weigh counts = source.foldr weigh counts := by
  induction steps with
  | refl => rfl
  | tail _ step ih => exact step.weigh.trans ih

/-- What is kept has the same counts. -/
theorem Keeps.weigh (keeps : Keeps source out) :
    out.foldr weigh counts = source.foldr weigh counts := by
  rw [← weigh_outline, ← @weigh_outline counts source]
  exact weigh_steps keeps.outlined

theorem Uncasts.subset (uncasts : Uncasts source out) : out ⊆ source := by
  cases uncasts with
  | pair front back =>
    intro symbol listed
    rcases List.mem_append.mp listed with before | behind
    · exact List.mem_append_left _ before
    · exact List.mem_append_right _ (List.mem_cons_of_mem _ (List.mem_cons_of_mem _ behind))

theorem steps_subset (steps : Relation.ReflTransGen Uncasts source out) : out ⊆ source := by
  induction steps with
  | refl => exact List.Subset.refl _
  | tail _ step ih => exact List.Subset.trans step.subset ih

theorem Keeps.marks (keeps : Keeps source out) (mark : symbol.isMark = true) (listed : symbol ∈ out) :
    symbol ∈ source := by
  have outlined : symbol ∈ outline out := List.mem_filter.mpr ⟨listed, by rw [mark]; rfl⟩
  exact (List.mem_filter.mp (steps_subset keeps.outlined outlined)).1

theorem Keeps.sound (keeps : Keeps source out) (sound : ∀ symbol ∈ source, Sound symbol) :
    ∀ symbol ∈ out, Sound symbol := by
  intro symbol listed
  cases symbol with
  | letter char =>
    refine ⟨?_, ?_⟩
    · rintro rfl
      exact (sound _ (keeps.letters '%' (by decide) listed)).1 rfl
    · rintro rfl
      exact (sound _ (keeps.letters '\'' (by decide) listed)).2 rfl
  | positional | escape => trivial
  | named name => exact sound _ (keeps.marks rfl listed)
  | literal text =>
    rcases keeps.literals text listed with own | new
    · exact sound _ own
    · exact inserted_quoted_whole new

/-- A faithful translation has the counts of its source. -/
theorem Faithful.tally {result : String} (faithful : Faithful source result)
    (sound : ∀ symbol ∈ source, Sound symbol) :
    result.toList.foldr tally (false, counts) = (false, source.foldr SqlTranslation.weigh counts) := by
  obtain ⟨out, keeps, same⟩ := faithful
  rw [same, tally_render (keeps.sound sound), keeps.weigh]

end Weigh

/-! ### Counting what the parameter style makes of a text -/

/-- The counts with one sign more behind each escape that clashes. -/
def misread : List Sym → List Bool → List Bool
  | [], counts => counts
  | .escape :: rest, counts =>
    false :: if clashes rest then (misread rest counts).modifyHead not else misread rest counts
  | symbol :: rest, counts => weigh symbol (misread rest counts)

section Misread

variable {counts : List Bool} {text : List Sym}

theorem misread_letters {chars : List Char} (letters : ∀ char ∈ chars, char ≠ '?' ∧ char ≠ ':') :
    misread (chars.map .letter ++ text) counts = misread text counts := by
  induction chars with
  | nil => rfl
  | cons first chars ih =>
    rw [List.map_cons, List.cons_append, misread,
      ih fun char listed => letters char (List.mem_cons_of_mem _ listed), weigh, if_neg]
    · obtain ⟨question, colon⟩ := letters first List.mem_cons_self
      exact not_or.mpr ⟨question, colon⟩
    · exact nofun

theorem tally_paramstyle (plain : ∀ symbol ∈ text, Plain symbol) :
    (paramstyle (text.flatMap Sym.spell)).foldr tally (false, counts) = (false, misread text counts) := by
  induction size : text.length using Nat.strong_induction_on generalizing text with
  | _ size ih =>
    subst size
    cases text with
    | nil => rfl
    | cons first text =>
      have own := plain first List.mem_cons_self
      have later : ∀ symbol ∈ text, Plain symbol := fun symbol listed =>
        plain symbol (List.mem_cons_of_mem _ listed)
      have rest := ih text.length (by simp) later rfl
      rw [List.flatMap_cons]
      cases first with
      | letter char =>
        rw [Sym.spell, List.singleton_append, paramstyle_letter own.1, List.foldr_cons, rest,
          tally_letter own.1 own.2]
        rfl
      | positional =>
        show (paramstyle ('%' :: 's' :: text.flatMap Sym.spell)).foldr tally (false, counts) = _
        rw [paramstyle_positional, List.foldr_cons, rest]
        rfl
      | named name =>
        rw [paramstyle_named own, List.foldr_append, rest, List.foldr_cons,
          tally_name (identifier_letters own)]
        rfl
      | literal quoted =>
        rw [Sym.spell, paramstyle_literal own, List.foldr_append, rest, inserted_quoted_whole own]
        rfl
      | escape =>
        show (paramstyle ('%' :: '%' :: text.flatMap Sym.spell)).foldr tally (false, counts) = _
        rw [misread]
        cases clash : clashes text with
        | false =>
          rw [paramstyle_unclashed later clash, List.foldr_cons, rest]
          rfl
        | true =>
          rcases clashes_cases clash with ⟨more, rfl⟩ | ⟨name, more, identifier, rfl⟩
          · have behind := ih more.length (by simp only [List.length_cons]; omega)
              (fun symbol listed => later symbol (List.mem_cons_of_mem _ listed)) rfl
            show (paramstyle ('%' :: '%' :: 's' :: more.flatMap Sym.spell)).foldr tally _ = _
            rw [paramstyle_clash, List.foldr_cons, List.foldr_cons, behind]
            rfl
          · have behind := ih more.length (by simp only [List.length_cons, List.length_append]; omega)
              (fun symbol listed => later symbol (List.mem_append_right _ listed)) rfl
            have letters : ∀ char ∈ '(' :: name ++ [')', 's'], char ≠ '?' ∧ char ≠ ':' := by
              intro char listed
              simp only [List.cons_append, List.mem_cons, List.mem_append, List.not_mem_nil,
                or_false] at listed
              rcases listed with rfl | inside | rfl | rfl
              · decide
              · exact (name_letter (identifier_letters identifier char inside)).2.2
              · decide
              · decide
            have spelled : '%' :: (('(' :: name ++ [')', 's']).map Sym.letter ++ more).flatMap Sym.spell =
                (Sym.named name).spell ++ more.flatMap Sym.spell := by
              simp [Sym.spell, List.flatMap_map]
            rw [misread_letters letters, spelled, paramstyle_clash_named identifier, List.foldr_append,
              behind, List.foldr_cons, List.foldr_cons, tally_name (identifier_letters identifier)]
            rfl

theorem misread_literal (front : List Sym) (quoted : List Char) (rest : List Sym) :
    misread (front ++ .literal quoted :: rest) counts = misread front (misread rest counts) := by
  induction front with
  | nil => rfl
  | cons first front ih =>
    rw [List.cons_append]
    cases first with
    | escape => rw [misread, misread, ih, clashes_literal]
    | letter _ | positional | named _ | literal _ =>
      simp only [misread, ih]

theorem not_injective {first second : List Bool} :
    first.modifyHead not = second.modifyHead not ↔ first = second := by
  refine ⟨fun same => ?_, fun same => by rw [same]⟩
  rw [← @not_twice first, same, not_twice]

/-- One sign more is seen in the first count, and is the only difference there. -/
theorem misread_head (some : counts ≠ []) : misread text counts ≠ [] ∧
    (misread text counts).head? = (text.foldr weigh counts).head? := by
  have flips : ∀ first second : List Bool, first ≠ [] ∧ first.head? = second.head? →
      first.modifyHead not ≠ [] ∧ (first.modifyHead not).head? = (second.modifyHead not).head? := by
    rintro first second ⟨nonempty, heads⟩
    cases first with
    | nil => exact absurd rfl nonempty
    | cons one first =>
      cases second with
      | nil => cases heads
      | cons other second =>
        cases heads
        exact ⟨by simp, by simp⟩
  induction text with
  | nil => exact ⟨some, rfl⟩
  | cons first text ih =>
    rw [List.foldr_cons]
    cases first with
    | letter char =>
      rw [misread, weigh, weigh]
      · split
        · exact flips _ _ ih
        · exact ih
      · exact nofun
    | positional | named _ => exact flips _ _ ih
    | literal _ => exact ih
    | escape => exact ⟨by simp [misread], rfl⟩

/-- The counts differ exactly if some escape clashes with what follows it. -/
theorem misread_iff (some : counts ≠ []) :
    misread text counts = text.foldr weigh counts ↔ apart text = true := by
  induction text with
  | nil => simp [misread, apart]
  | cons first text ih =>
    rw [List.foldr_cons]
    cases first with
    | letter char =>
      rw [misread, weigh, weigh]
      · split
        · rw [not_injective, ih, apart]
          rintro ⟨⟩
        · rw [ih, apart]
          rintro ⟨⟩
      · rintro ⟨⟩
    | positional | named _ =>
      rw [misread, weigh, weigh, not_injective, ih, apart]
      · rintro ⟨⟩
      · rintro ⟨⟩
    | literal _ => exact ih
    | escape =>
      rw [misread, weigh, apart, Bool.and_eq_true, Bool.not_eq_true', List.cons.injEq, ← ih]
      cases clash : clashes text with
      | false => simp
      | true =>
        obtain ⟨nonempty, heads⟩ := @misread_head counts text some
        obtain ⟨one, rest, same⟩ := List.exists_cons_of_ne_nil nonempty
        rw [same] at heads ⊢
        simp only [if_true, Bool.true_eq_false, false_and, iff_false, true_and]
        intro flipped
        rw [← flipped] at heads
        simp at heads

end Misread

end QueueWorkflows.SqlTranslation
