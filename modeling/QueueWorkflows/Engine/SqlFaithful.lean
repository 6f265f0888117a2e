import QueueWorkflows.Engine.SqlSigns

/-! The translation of whole statements. The code cuts a statement at its apostrophes, which are
those of its literals as long as no comment has any. -/

namespace QueueWorkflows.SqlTranslation

open Scanning

/-! ### What is read of a statement -/

/-- The readings of a statement, one rule for each way a symbol is read. -/
inductive Reads : Mode → List Char → List Sym → Prop where
  | finish {place : Place} : Reads (.plain place) [] []
  | escape {place : Place} {text : List Char} {rest : List Sym} (read : Reads (.plain place) text rest) :
    Reads (.plain place) ('%' :: '%' :: text) (.escape :: rest)
  | positional {place : Place} {text : List Char} {rest : List Sym}
    (read : Reads (.plain place) text rest) :
    Reads (.plain place) ('%' :: 's' :: text) (.positional :: rest)
  | name {place : Place} {text : List Char} {source : List Sym} (read : Reads (.name [] place) text source) :
    Reads (.plain place) ('%' :: '(' :: text) source
  | quote {text : List Char} {source : List Sym} (read : Reads (.literal ['\'']) text source) :
    Reads (.plain .code) ('\'' :: text) source
  | pair {place next : Place} {first second : Char} {text : List Char} {rest : List Sym}
    (other : first ≠ '%') (behind : second ≠ '%') (read : Reads (.plain next) text rest) :
    Reads (.plain place) (first :: second :: text) (.letter first :: .letter second :: rest)
  | single {place next : Place} {first : Char} {text : List Char} {rest : List Sym}
    (other : first ≠ '%') (read : Reads (.plain next) text rest) :
    Reads (.plain place) (first :: text) (.letter first :: rest)
  | doubled {taken text : List Char} {source : List Sym}
    (read : Reads (.literal (taken ++ ['\'', '\''])) text source) :
    Reads (.literal taken) ('\'' :: '\'' :: text) source
  | close {taken text : List Char} {rest : List Sym} (ends : text.head? ≠ some '\'')
    (read : Reads (.plain .code) text rest) :
    Reads (.literal taken) ('\'' :: text) (.literal (taken ++ ['\'']) :: rest)
  | inside {taken text : List Char} {char : Char} {source : List Sym} (other : char ≠ '\'')
    (read : Reads (.literal (taken ++ [char])) text source) :
    Reads (.literal taken) (char :: text) source
  | named {taken text : List Char} {place : Place} {rest : List Sym}
    (read : Reads (.plain place) text rest) :
    Reads (.name taken place) (')' :: 's' :: text) (.named taken :: rest)
  | letter {taken text : List Char} {place : Place} {char : Char} {source : List Sym}
    (read : Reads (.name (taken ++ [char]) place) text source) :
    Reads (.name taken place) (char :: text) source

theorem pair_letters {place next : Place} {first : Char} {text : List Char}
    (pair : place.pair first text = some next) :
    first ≠ '%' ∧ ∃ second rest, text = second :: rest ∧ second ≠ '%' := by
  unfold Place.pair at pair
  split at pair
  · exact ⟨by decide, _, _, rfl, by decide⟩
  · exact ⟨by decide, _, _, rfl, by decide⟩
  · exact ⟨by decide, _, _, rfl, by decide⟩
  · exact ⟨by decide, _, _, rfl, by decide⟩
  · exact ⟨by decide, _, _, rfl, by decide⟩
  · cases pair

/-- What is read by the function is a reading. -/
theorem reads {mode : Mode} {sql : List Char} {source : List Sym}
    (lexed : lexFrom mode sql = some source) : Reads mode sql source := by
  induction mode, sql using lexFrom.induct generalizing source with
  | case1 place closed =>
    rw [lexFrom, if_pos closed] at lexed
    cases lexed
    exact .finish
  | case2 place closed =>
    rw [lexFrom, if_neg closed] at lexed
    cases lexed
  | case3 place text ih =>
    rw [lexFrom.eq_def] at lexed
    obtain ⟨rest, read, rfl⟩ := Option.map_eq_some_iff.mp lexed
    exact .escape (ih read)
  | case4 place text ih =>
    rw [lexFrom.eq_def] at lexed
    obtain ⟨rest, read, rfl⟩ := Option.map_eq_some_iff.mp lexed
    exact .positional (ih read)
  | case5 place text ih =>
    rw [lexFrom.eq_def] at lexed
    exact .name (ih lexed)
  | case6 place text unescaped unplaced unnamed =>
    have none : lexFrom (.plain place) ('%' :: text) = none := by
      rw [lexFrom.eq_def]
      cases place with
      | code | line | block depth => simp only [if_true]
    cases none.symm.trans lexed
  | case7 place first text other quote ih =>
    obtain ⟨rfl, code⟩ := quote
    cases place with
    | code =>
      rw [lexFrom.eq_def] at lexed
      exact .quote (ih lexed)
    | line | block depth => cases code
  | case8 place first other unquoted next second text pair ih =>
    have same : lexFrom (.plain place) (first :: second :: text) =
        (lexFrom (.plain next) text).map ([.letter first, .letter second] ++ ·) := by
      rw [lexFrom.eq_def]
      cases place with
      | code =>
        have plain : first ≠ '\'' := fun same => unquoted ⟨same, rfl⟩
        simp only [if_neg other, pair, plain, false_and, if_false]
      | line | block depth => simp [if_neg other, pair]
    rw [same] at lexed
    obtain ⟨rest, read, rfl⟩ := Option.map_eq_some_iff.mp lexed
    obtain ⟨-, second, rest, same, behind⟩ := pair_letters pair
    cases same
    exact .pair other behind (ih read)
  | case9 place first other unquoted text single ih =>
    have same : lexFrom (.plain place) (first :: text) =
        (lexFrom (.plain (place.behind first)) text).map (.letter first :: ·) := by
      rw [lexFrom.eq_def]
      cases place with
      | code =>
        have plain : first ≠ '\'' := fun same => unquoted ⟨same, rfl⟩
        simp only [if_neg other, plain, false_and, if_false]
      | line | block depth => simp [if_neg other]
    rw [same] at lexed
    obtain ⟨rest, read, rfl⟩ := Option.map_eq_some_iff.mp lexed
    exact .single other (ih read)
  | case10 read => cases lexed
  | case11 read text ih =>
    rw [lexFrom] at lexed
    exact .doubled (ih lexed)
  | case12 read text single ih =>
    rw [lexFrom] at lexed
    · obtain ⟨rest, read, rfl⟩ := Option.map_eq_some_iff.mp lexed
      refine .close (fun starts => ?_) (ih read)
      obtain ⟨more, rfl⟩ := List.head?_eq_some_iff.mp starts
      exact single more rfl
    · exact single
  | case13 read char text undoubled other ih =>
    rw [lexFrom] at lexed
    · exact .inside other (ih lexed)
    · exact undoubled
    · exact other
  | case14 read place => cases lexed
  | case15 place text => 
    rw [lexFrom, if_pos rfl] at lexed
    cases lexed
  | case16 read place text nonempty ih =>
    rw [lexFrom, if_neg nonempty] at lexed
    obtain ⟨rest, read, rfl⟩ := Option.map_eq_some_iff.mp lexed
    exact .named (ih read)
  | case17 read place tail other =>
    rw [lexFrom] at lexed
    · cases lexed
    · exact other
  | case18 read place char text unclosed other ih =>
    rw [lexFrom] at lexed
    · exact .letter (ih lexed)
    · exact unclosed
    · exact other

/-! ### Cutting at the literals -/

/-- The chunk that is in the buffer. -/
def flush (buf : List Char) : List (Bool × List Char) := if buf = [] then [] else [(false, buf)]

/-- The literals of a statement and the text between them. -/
def assemble (buf : List Char) : List Sym → List (Bool × List Char)
  | [] => flush buf
  | .literal text :: rest => flush buf ++ (true, text) :: assemble [] rest
  | symbol :: rest => assemble (buf ++ symbol.spell) rest

section Split

variable {buf front sql : List Char} {char : Char}

theorem split_other (other : char ≠ '\'') :
    splitSqlLiterals false buf (char :: sql) = splitSqlLiterals false (buf ++ [char]) sql := by
  rw [splitSqlLiterals]
  exact other

theorem split_inside (other : char ≠ '\'') :
    splitSqlLiterals true buf (char :: sql) = splitSqlLiterals true (buf ++ [char]) sql := by
  rw [splitSqlLiterals]
  · exact fun _ same => absurd same other
  · exact other

theorem split_close (ends : sql.head? ≠ some '\'') :
    splitSqlLiterals true buf ('\'' :: sql) = (true, buf ++ ['\'']) :: splitSqlLiterals false [] sql := by
  rw [splitSqlLiterals]
  rintro more rfl
  exact ends rfl

theorem split_letters (away : '\'' ∉ front) : splitSqlLiterals false buf (front ++ sql) =
    splitSqlLiterals false (buf ++ front) sql := by
  induction front generalizing buf with
  | nil => simp
  | cons first front ih =>
    rw [List.mem_cons, not_or] at away
    rw [List.cons_append, split_other (Ne.symm away.1), ih away.2]
    simp

end Split

/-! ### Reading and cutting -/

/-- No comment has an apostrophe, and every name is an identifier. -/
structure Orderly (source : List Sym) : Prop where
  quiet : .letter '\'' ∉ source
  named : ∀ name, .named name ∈ source → isIdentifier name = true

section Orderly

variable {symbol : Sym} {rest : List Sym}

theorem Orderly.behind (orderly : Orderly (symbol :: rest)) : Orderly rest where
  quiet listed := orderly.quiet (List.mem_cons_of_mem _ listed)
  named name listed := orderly.named name (List.mem_cons_of_mem _ listed)

theorem Orderly.letter {char : Char} (orderly : Orderly (.letter char :: rest)) : char ≠ '\'' := by
  rintro rfl
  exact orderly.quiet List.mem_cons_self

theorem Orderly.name {name : List Char} (orderly : Orderly (.named name :: rest)) {char : Char}
    (listed : char ∈ name) : char ≠ '\'' := by
  have letters := identifier_letters (orderly.named name List.mem_cons_self)
  rintro rfl
  exact absurd (letters _ listed) (by decide)

end Orderly

/-- A name that is read to its end begins with what has been read of it. -/
theorem Reads.begins {mode : Mode} {sql : List Char} {source : List Sym}
    (reads : Reads mode sql source) : ∀ taken place, mode = .name taken place →
      ∃ name rest, source = .named name :: rest ∧ taken <+: name := by
  induction reads with
  | named read _ =>
    rintro taken place ⟨⟩
    exact ⟨_, _, rfl, List.prefix_rfl⟩
  | letter read ih =>
    rintro taken place ⟨⟩
    obtain ⟨name, rest, same, longer⟩ := ih _ _ rfl
    exact ⟨name, rest, same, (List.prefix_append _ _).trans longer⟩
  | _ => exact nofun

/-- The cutting is in step with the reading. -/
def InStep (mode : Mode) (sql : List Char) (source : List Sym) : Prop :=
  ∀ buf, match mode with
    | .plain _ => splitSqlLiterals false buf sql = assemble buf source
    | .literal taken => flush buf ++ splitSqlLiterals true taken sql = assemble buf source
    | .name taken _ => splitSqlLiterals false (buf ++ '%' :: '(' :: taken) sql = assemble buf source

theorem Reads.inStep {mode : Mode} {sql : List Char} {source : List Sym}
    (reads : Reads mode sql source) (orderly : Orderly source) : InStep mode sql source := by
  induction reads with
  | finish => exact fun buf => rfl
  | @escape place text rest read ih =>
    intro buf
    show splitSqlLiterals false buf (['%', '%'] ++ text) = _
    rw [split_letters (by decide)]
    exact ih orderly.behind _
  | @positional place text rest read ih =>
    intro buf
    show splitSqlLiterals false buf (['%', 's'] ++ text) = _
    rw [split_letters (by decide)]
    exact ih orderly.behind _
  | @name place text source read ih =>
    intro buf
    show splitSqlLiterals false buf (['%', '('] ++ text) = _
    rw [split_letters (by decide)]
    exact ih orderly buf
  | quote read ih => exact fun buf => ih orderly buf
  | @pair place next first second text rest other behind read ih =>
    intro buf
    show splitSqlLiterals false buf (first :: second :: text) = assemble (buf ++ [first] ++ [second]) rest
    rw [split_other orderly.letter, split_other orderly.behind.letter]
    exact ih orderly.behind.behind _
  | single other read ih =>
    intro buf
    show splitSqlLiterals false buf _ = _
    rw [split_other orderly.letter]
    exact ih orderly.behind _
  | doubled read ih => exact fun buf => ih orderly buf
  | close ends read ih =>
    intro buf
    show flush buf ++ splitSqlLiterals true _ _ = _
    rw [split_close ends, ih orderly.behind []]
    rfl
  | inside other read ih =>
    intro buf
    show flush buf ++ splitSqlLiterals true _ _ = _
    rw [split_inside other]
    exact ih orderly buf
  | @named taken text place rest read ih =>
    intro buf
    show splitSqlLiterals false _ ([')', 's'] ++ text) = assemble (buf ++ (Sym.named taken).spell) rest
    rw [split_letters (by decide)]
    have read := ih orderly.behind (buf ++ (Sym.named taken).spell)
    simpa [Sym.spell] using read
  | @letter taken text place char source read ih =>
    intro buf
    obtain ⟨name, rest, rfl, begins⟩ := read.begins _ _ rfl
    show splitSqlLiterals false _ _ = _
    rw [split_other (orderly.name (begins.subset (by simp)))]
    have read := ih orderly buf
    simpa using read

/-! ### Between the literals -/

/-- What becomes of a part of a statement. -/
def translatePart (classes : Classes) (part : Bool × List Char) : List Char :=
  if part.1 then part.2 else rewriteChunk classes part.2

section Chunks

variable {classes : Classes} {chunk source : List Sym}

theorem rewriteChunk_nil : rewriteChunk classes [] = [] := by
  simp [rewriteChunk, Alphabet.restructure, Alphabet.rewriteIntervals, paramstyle]

theorem flush_translated (buf : List Char) :
    (flush buf).flatMap (translatePart classes) = rewriteChunk classes buf := by
  unfold flush
  split
  · rename_i empty
    rw [empty, rewriteChunk_nil]
    rfl
  · simp [translatePart]

theorem rewriteChunk_apart (plain : ∀ symbol ∈ chunk, Plain symbol)
    (free : apart (symbols.restructure classes chunk) = true) :
    rewriteChunk classes (chunk.flatMap Sym.spell) =
      (symbols.restructure classes chunk).flatMap Sym.render := by
  have stage := restructure_stage classes plain
  rw [rewriteChunk, stage.spelled]
  exact paramstyle_apart stage.plain free

theorem tally_chunk (plain : ∀ symbol ∈ chunk, Plain symbol) (counts : List Bool) :
    (rewriteChunk classes (chunk.flatMap Sym.spell)).foldr tally (false, counts) =
      (false, misread (symbols.restructure classes chunk) counts) := by
  have stage := restructure_stage classes plain
  rw [rewriteChunk, stage.spelled]
  exact tally_paramstyle stage.plain

theorem plain_snoc {symbol : Sym} (plain : ∀ symbol ∈ chunk, Plain symbol) (own : Plain symbol) :
    ∀ other ∈ chunk ++ [symbol], Plain other := by
  intro other listed
  rcases List.mem_append.mp listed with before | last
  · exact plain other before
  · exact List.mem_singleton.mp last ▸ own

theorem plain_of_sound {symbol : Sym} (sound : Sound symbol) (other : ∀ text, symbol ≠ .literal text) :
    Plain symbol := by
  cases symbol with
  | literal text => exact absurd rfl (other text)
  | letter _ | positional | named _ | escape => exact sound

/-- Where no escape clashes, the parts of a statement are translated as its symbols are. -/
theorem translated_apart (plain : ∀ symbol ∈ chunk, Plain symbol)
    (sound : ∀ symbol ∈ source, Sound symbol)
    (free : apart (restructureFrom classes chunk source) = true) :
    (assemble (chunk.flatMap Sym.spell) source).flatMap (translatePart classes) =
      (restructureFrom classes chunk source).flatMap Sym.render := by
  induction source generalizing chunk with
  | nil =>
    rw [assemble, restructureFrom, flush_translated]
    exact rewriteChunk_apart plain free
  | cons symbol source ih =>
    have own := sound symbol List.mem_cons_self
    have behind : ∀ symbol ∈ source, Sound symbol := fun symbol listed =>
      sound symbol (List.mem_cons_of_mem _ listed)
    cases symbol with
    | literal text =>
      rw [restructureFrom, apart_literal, Bool.and_eq_true] at free
      have rest := @ih [] nofun behind free.2
      rw [assemble, restructureFrom, List.flatMap_append, flush_translated, List.flatMap_append,
        List.flatMap_cons, List.flatMap_cons, rewriteChunk_apart plain free.1, ← rest]
      rfl
    | letter _ | positional | named _ | escape =>
      have longer := ih (plain_snoc plain (plain_of_sound own nofun)) behind free
      rw [List.flatMap_append, List.flatMap_singleton] at longer
      exact longer

/-- The signs that are counted in the translation of a statement. -/
theorem tally_translated (plain : ∀ symbol ∈ chunk, Plain symbol)
    (sound : ∀ symbol ∈ source, Sound symbol) (counts : List Bool) :
    ((assemble (chunk.flatMap Sym.spell) source).flatMap (translatePart classes)).foldr tally
        (false, counts) = (false, misread (restructureFrom classes chunk source) counts) := by
  induction source generalizing chunk with
  | nil =>
    rw [assemble, restructureFrom, flush_translated]
    exact tally_chunk plain counts
  | cons symbol source ih =>
    have own := sound symbol List.mem_cons_self
    have behind : ∀ symbol ∈ source, Sound symbol := fun symbol listed =>
      sound symbol (List.mem_cons_of_mem _ listed)
    cases symbol with
    | literal text =>
      have rest := @ih [] nofun behind
      have quoted : translatePart classes (true, text) = text := rfl
      rw [assemble, restructureFrom, misread_literal, List.flatMap_append, flush_translated,
        List.flatMap_cons, List.foldr_append, List.foldr_append, quoted, ← tally_chunk plain]
      congr 1
      exact (congrArg (text.foldr tally) rest).trans (own _)
    | letter _ | positional | named _ | escape =>
      have longer := ih (plain_snoc plain (plain_of_sound own nofun)) behind
      rw [List.flatMap_append, List.flatMap_singleton] at longer
      exact longer

theorem restructureFrom_keeps (plain : ∀ symbol ∈ chunk, Plain symbol)
    (sound : ∀ symbol ∈ source, Sound symbol) :
    Keeps (chunk ++ source) (restructureFrom classes chunk source) := by
  induction source generalizing chunk with
  | nil =>
    rw [List.append_nil]
    exact (restructure_stage classes plain).keeps
  | cons symbol source ih =>
    have own := sound symbol List.mem_cons_self
    have behind : ∀ symbol ∈ source, Sound symbol := fun symbol listed =>
      sound symbol (List.mem_cons_of_mem _ listed)
    cases symbol with
    | literal text =>
      have front := (restructure_stage classes plain).keeps
      exact front.append ((Keeps.refl [.literal text]).append (@ih [] nofun behind))
    | letter _ | positional | named _ | escape =>
      have longer := ih (plain_snoc plain (plain_of_sound own nofun)) behind
      rw [List.append_assoc] at longer
      exact longer

end Chunks

/-! ### Whole statements -/

theorem Reads.letters {mode : Mode} {sql : List Char} {source : List Sym}
    (reads : Reads mode sql source) : .letter '%' ∉ source := by
  induction reads with
  | finish => exact List.not_mem_nil
  | escape _ ih | positional _ ih | named _ ih | close _ _ ih =>
    intro listed
    exact ih ((List.mem_cons.mp listed).resolve_left nofun)
  | name _ ih | quote _ ih | doubled _ ih | inside _ _ ih | letter _ ih => exact ih
  | pair other behind _ ih =>
    simp only [List.mem_cons, Sym.letter.injEq, not_or]
    exact ⟨other.symm, behind.symm, ih⟩
  | single other _ ih =>
    simp only [List.mem_cons, Sym.letter.injEq, not_or]
    exact ⟨other.symm, ih⟩

/-- The literals that are read are quoted; of one that is being read, its end closes it. -/
def Closes (mode : Mode) (source : List Sym) : Prop :=
  match mode with
  | .literal taken => ∃ body rest, source = .literal (taken ++ body) :: rest ∧
      (∀ counts, body.foldr tally (false, counts) = (true, counts)) ∧
        ∀ text, .literal text ∈ rest → Quoted text
  | _ => ∀ text, .literal text ∈ source → Quoted text

theorem Reads.closes {mode : Mode} {sql : List Char} {source : List Sym}
    (reads : Reads mode sql source) : Closes mode source := by
  induction reads with
  | finish => exact fun _ listed => (List.not_mem_nil listed).elim
  | escape _ ih | positional _ ih | named _ ih | single _ _ ih =>
    intro text listed
    exact ih text ((List.mem_cons.mp listed).resolve_left nofun)
  | pair _ _ _ ih =>
    intro text listed
    have behind := (List.mem_cons.mp listed).resolve_left nofun
    exact ih text ((List.mem_cons.mp behind).resolve_left nofun)
  | name _ ih | letter _ ih => exact ih
  | quote _ ih =>
    obtain ⟨body, rest, rfl, ends, behind⟩ := ih
    intro text listed
    rcases List.mem_cons.mp listed with same | later
    · cases same
      intro counts
      rw [List.foldr_append, ends]
      rfl
    · exact behind text later
  | close _ _ ih => exact ⟨['\''], _, rfl, fun _ => rfl, ih⟩
  | doubled _ ih =>
    obtain ⟨body, rest, rfl, ends, behind⟩ := ih
    refine ⟨'\'' :: '\'' :: body, rest, by simp, fun counts => ?_, behind⟩
    rw [List.foldr_cons, List.foldr_cons, ends]
    rfl
  | @inside taken text char source other _ ih =>
    obtain ⟨body, rest, rfl, ends, behind⟩ := ih
    refine ⟨char :: body, rest, by simp, fun counts => ?_, behind⟩
    rw [List.foldr_cons, ends, tally_inside other]

theorem Reads.sound {sql : List Char} {source : List Sym} (reads : Reads (.plain .code) sql source)
    (orderly : Orderly source) : ∀ symbol ∈ source, Sound symbol := by
  intro symbol listed
  cases symbol with
  | letter char =>
    refine ⟨?_, ?_⟩
    · rintro rfl
      exact reads.letters listed
    · rintro rfl
      exact orderly.quiet listed
  | positional | escape => trivial
  | named name => exact orderly.named name listed
  | literal text => exact reads.closes text listed

/-- Without intervals in literals the first step leaves the statement as it is. -/
theorem preSplitIntervals_pass {classes : Classes} {sql : String}
    (without : ¬ UsesIntervalLiteral classes sql) :
    preSplitIntervals classes sql.toList = sql.toList := by
  have pass := @sub_pass Char (intervalLiteral classes) none sql.toList []
    fun back _ ends before => by
      rw [List.append_nil]
      cases matched : intervalLiteral classes before back with
      | none => rfl
      | some found =>
        have same : intervalLiteral classes none back = some found := matched
        exact absurd ⟨back, ends, same ▸ rfl⟩ without
  rwa [List.append_nil, sub_nil, List.append_nil] at pass

/-- A statement of which the comments have no apostrophes and the names are identifiers is
translated faithfully if and only if no escape clashes with what follows it. -/
theorem faithful_iff (classes : Classes) {sql : String} {source : List Sym}
    (lexed : lex sql = some source) (without : ¬ UsesIntervalLiteral classes sql)
    (orderly : Orderly source) : Faithful source (translateSqlForSqlite classes sql) ↔
      apart (restructureAll classes source) = true := by
  have reads : Reads (.plain .code) sql.toList source := reads lexed
  have sound := reads.sound orderly
  have cut : splitSqlLiterals false [] sql.toList = assemble [] source := reads.inStep orderly []
  have keeps : Keeps source (restructureAll classes source) := @restructureFrom_keeps classes [] source nofun sound
  have translated : (translateSqlForSqlite classes sql).toList =
      (assemble [] source).flatMap (translatePart classes) := by
    rw [translateSqlForSqlite, String.toList_ofList, preSplitIntervals_pass without, cut]
    rfl
  constructor
  · intro faithful
    have counted := @Faithful.tally [false] source _ faithful sound
    have seen := @tally_translated classes [] source nofun sound [false]
    rw [translated] at counted
    have same := congrArg Prod.snd (seen.symm.trans counted)
    refine (@misread_iff [false] _ (by simp)).mp (same.trans ?_)
    exact keeps.weigh.symm
  · intro free
    exact ⟨_, keeps, translated.trans (@translated_apart classes [] source nofun sound free)⟩

/-! ### Statements -/

/-- The classes of characters, for statements in ASCII. -/
def ascii : Classes where
  word char := char.isAlphanum || char == '_'
  digit := Char.isDigit
  word_ascii _ _ := rfl
  digit_ascii _ _ := rfl

theorem lex_line {char : Char} {text : List Char} (other : char ≠ '%') :
    lexFrom (.plain .line) (char :: text) =
      (lexFrom (.plain (Place.line.behind char)) text).map (.letter char :: ·) := by
  rw [lexFrom.eq_def]
  simp [if_neg other, Place.pair]

/-- A test for statements without intervals in literals. -/
theorem without_of {classes : Classes} {sql : String}
    (none : sql.toList.tails.all (fun text => (intervalLiteral classes none text).isNone) = true) :
    ¬ UsesIntervalLiteral classes sql := by
  rintro ⟨text, ends, found⟩
  have clear := List.all_eq_true.mp none text ((List.mem_tails _ _).mpr ends)
  rw [Option.isNone_iff_eq_none] at clear
  rw [clear] at found
  cases found

/-- A faithful translation has the letters of each placeholder. -/
theorem Faithful.letters {source : List Sym} {result : String} (faithful : Faithful source result)
    {symbol : Sym} (mark : symbol.isLetter = false) (listed : symbol ∈ source) {char : Char}
    (rendered : char ∈ symbol.render) : char ∈ result.toList := by
  obtain ⟨out, keeps, same⟩ := faithful
  have there : symbol ∈ out.filter fun symbol => !symbol.isLetter :=
    keeps.order.subset (List.mem_filter.mpr ⟨listed, by rw [mark]; rfl⟩)
  rw [same]
  exact List.mem_flatMap.mpr ⟨symbol, (List.mem_filter.mp there).1, rendered⟩

theorem faithful_iff_columns :
    Faithful ("SELECT ".toList.map .letter ++ [.escape, .letter ' ', .named "id".toList])
        (translateSqlForSqlite ascii "SELECT %% %(id)s") ↔
      apart (restructureAll ascii
        ("SELECT ".toList.map .letter ++ [.escape, .letter ' ', .named "id".toList])) = true :=
  faithful_iff ascii (by simp [lex, lexFrom, Place.pair, Place.behind, Place.closed])
    (without_of (by decide +kernel)) ⟨by decide, by simp [isIdentifier, nameStart, nameRest]⟩

/-- An apostrophe in a comment, an escape in front of an `s` and a name with a hyphen. -/
theorem placeholders_lost :
    (∃ source, lex "SELECT 1 -- don't\n, %s" = some source ∧
      ¬ UsesIntervalLiteral ascii "SELECT 1 -- don't\n, %s" ∧
        ¬ Faithful source (translateSqlForSqlite ascii "SELECT 1 -- don't\n, %s")) ∧
    (∃ source, lex "SELECT id %%shards, %s" = some source ∧
      ¬ UsesIntervalLiteral ascii "SELECT id %%shards, %s" ∧
        ¬ Faithful source (translateSqlForSqlite ascii "SELECT id %%shards, %s")) ∧
    ∃ source, lex "SELECT %(a-b)s" = some source ∧ ¬ UsesIntervalLiteral ascii "SELECT %(a-b)s" ∧
      ¬ Faithful source (translateSqlForSqlite ascii "SELECT %(a-b)s") := by
  refine ⟨⟨"SELECT 1 -- don't\n, ".toList.map .letter ++ [.positional], ?_, without_of (by decide +kernel),
      fun faithful => ?_⟩, ?_,
    ⟨"SELECT ".toList.map .letter ++ [.named "a-b".toList], ?_, without_of (by decide +kernel),
      fun faithful => ?_⟩⟩
  · simp [lex, lexFrom, Place.pair, Place.behind, Place.closed, lex_line]
  · have sign : '?' ∈ (translateSqlForSqlite ascii "SELECT 1 -- don't\n, %s").toList :=
      @Faithful.letters _ _ faithful .positional rfl (by simp) '?' (by simp [Sym.render])
    rw [translateSqlForSqlite, String.toList_ofList] at sign
    revert sign
    decide +kernel
  · have lexed : lex "SELECT id %%shards, %s" = some ("SELECT id ".toList.map .letter ++ [.escape] ++
        "shards, ".toList.map .letter ++ [.positional]) := by
      simp [lex, lexFrom, Place.pair, Place.behind, Place.closed]
    refine ⟨_, lexed, without_of (by decide +kernel), fun faithful => ?_⟩
    have read : Reads (.plain .code) "SELECT id %%shards, %s".toList _ := reads lexed
    have counted := @Faithful.tally [false] _ _ faithful
      (read.sound ⟨by decide, fun name listed => by simp at listed⟩)
    rw [translateSqlForSqlite, String.toList_ofList] at counted
    revert counted
    decide +kernel
  · simp [lex, lexFrom, Place.pair, Place.behind, Place.closed]
  · have sign : ':' ∈ (translateSqlForSqlite ascii "SELECT %(a-b)s").toList :=
      @Faithful.letters _ _ faithful (.named "a-b".toList) rfl (by simp) ':' (by simp [Sym.render])
    rw [translateSqlForSqlite, String.toList_ofList] at sign
    revert sign
    decide +kernel

end QueueWorkflows.SqlTranslation
