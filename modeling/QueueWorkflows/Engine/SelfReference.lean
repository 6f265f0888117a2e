import QueueWorkflows.Engine.Unresolved

/-! References that lead back to themselves. Data that looks like a reference is evaluated like
one, and only a bare `$from` can resolve to the dict that it is: where the context holds that
very dict at its path. -/

namespace QueueWorkflows

namespace Refs

/-- A dict that the evaluator does not take literally. -/
def isRef (fields : Dict) : Bool :=
  (Dict.get? fields "$value").isSome || (Dict.get? fields "$coalesce").isSome ||
    (Dict.get? fields "$from").isSome

mutual

/-- The references that the evaluation of a value comes to. It does not look into lists, nor
into a reference. -/
def carried : Json → List Json
  | .obj fields => if isRef fields then [.obj fields] else carriedFields fields
  | _ => []
termination_by structural value => value

def carriedFields : List (String × Json) → List Json
  | [] => []
  | (_, value) :: rest => carried value ++ carriedFields rest
termination_by structural fields => fields

end

variable (py : Python) (context : Dict)

def Returns (value : Json) : Prop :=
  ∃ found, evaluate py context value = .ok found

def Missing (value : Json) : Prop :=
  ∃ error, evaluate py context value = .error error ∧ error.kind = .keyError

/-- One of the references is missing from the context, and those before it are not. -/
def FirstMissing : List Json → Prop
  | [] => False
  | ref :: rest => Missing py context ref ∨ (Returns py context ref ∧ FirstMissing rest)

/-- A `$from` that nothing is done with, where the context holds the target at its path. -/
def LeadsTo (target : Json) (fields : Dict) : Json → Prop
  | .str path =>
    Dict.get? fields "$filter" = none ∧ Dict.get? fields "$eq" = none ∧
      Dict.get? fields "$ne" = none ∧
      ∃ found, dig py path (.json (.obj context)) (segments path) = .ok found ∧
        found.dumps py = .ok target
  | _ => False

mutual

/-- A bare `$from` that leads to the target, or a `$coalesce` that comes to one. A `$value`, a
`$default` and a literal never do, since they are smaller than the target or of another shape. -/
def Recurs (target : Json) : Json → Prop
  | .obj fields =>
    match Dict.get? fields "$value" with
    | some _ => False
    | none =>
      match recursCoalesce target fields with
      | some recurs => recurs
      | none =>
        match Dict.get? fields "$from" with
        | some path => LeadsTo py context target fields path
        | none => False
  | _ => False
termination_by structural value => value

def recursCoalesce (target : Json) : List (String × Json) → Option Prop
  | [] => none
  | (key, value) :: rest =>
    if key = "$coalesce" then
      match value with
      | .arr candidates => some (RecursFirst target candidates)
      | _ => some False
    else recursCoalesce target rest
termination_by structural fields => fields

def RecursFirst (target : Json) : List Json → Prop
  | [] => False
  | candidate :: rest =>
    Recurs target candidate ∨ (Passed py context candidate ∧ RecursFirst target rest)
termination_by structural candidates => candidates

end

/-- The context holds each reference of the value at the path that it names, or one of them is
missing, so that the value is taken as it is. -/
def Harmless (value : Json) : Prop :=
  (∀ ref ∈ carried value, Recurs py context ref ref) ∨ FirstMissing py context (carried value)

mutual

/-- The value with each reference that it carries replaced by what the reference means. -/
def Rewritten : Json → Json → Prop
  | .obj fields, found =>
    if isRef fields then resolveRef py context (.obj fields) = .ok found
    else ∃ others, found = .obj others ∧ RewrittenFields fields others
  | value, found => found = value
termination_by structural value => value

def RewrittenFields : List (String × Json) → Dict → Prop
  | [], others => others = []
  | (key, value) :: rest, others =>
    ∃ found values, others = (key, found) :: values ∧ Rewritten value found ∧
      RewrittenFields rest values
termination_by structural fields => fields

end

section

variable {py} {context} {fields rest : Dict} {key : String} {value : Json}

theorem isRef_eq_false_iff : isRef fields = false ↔ Dict.get? fields "$value" = none ∧
    Dict.get? fields "$coalesce" = none ∧ Dict.get? fields "$from" = none := by
  simp [isRef, and_assoc]

theorem evaluate_dict (literal : isRef fields = false) :
    evaluate py context (.obj fields) = (evaluateFields py context fields).map .dict := by
  obtain ⟨noValue, noCoalesce, noFrom⟩ := isRef_eq_false_iff.mp literal
  unfold evaluate
  simp only [noValue, coalesce_eq_none noCoalesce, noFrom]
  cases evaluateFields py context fields <;> rfl

/-- The entries of a literal dict, as they are stored. -/
def resolveEntries (py : Python) (context fields : Dict) : Except PyErr Dict :=
  evaluateFields py context fields >>= Found.dumpsEntries py

theorem resolveRef_dict (literal : isRef fields = false) :
    resolveRef py context (.obj fields) = (resolveEntries py context fields).map .obj := by
  unfold resolveRef resolveEntries
  rw [evaluate_dict literal]
  cases evaluateFields py context fields <;> rfl

theorem resolveEntries_cons {resolved : Json} {others : Dict} :
    resolveEntries py context ((key, value) :: rest) = .ok ((key, resolved) :: others) ↔
      resolveRef py context value = .ok resolved ∧
        resolveEntries py context rest = .ok others := by
  unfold resolveEntries resolveRef
  simp only [evaluateFields]
  cases evaluate py context value with
  | error error => simp [bind, Except.bind]
  | ok found =>
    cases evaluateFields py context rest with
    | error error => simp [bind, Except.bind]
    | ok entries =>
      simp only [bind, Except.bind, pure, Except.pure, Found.dumpsEntries]
      cases found.dumps py with
      | error error => simp
      | ok dumped => cases Found.dumpsEntries py entries <;> simp

theorem resolveEntries_self : resolveEntries py context fields = .ok fields ↔
    ∀ entry ∈ fields, resolveRef py context entry.2 = .ok entry.2 := by
  induction fields with
  | nil => simp [resolveEntries, evaluateFields, Found.dumpsEntries, bind, Except.bind]
  | cons entry rest ih =>
    obtain ⟨key, value⟩ := entry
    rw [resolveEntries_cons, ih, List.forall_mem_cons]

theorem mem_carriedFields {ref : Json} :
    ref ∈ carriedFields fields ↔ ∃ entry ∈ fields, ref ∈ carried entry.2 := by
  induction fields with
  | nil => simp [carriedFields]
  | cons entry rest ih => simp [carriedFields, ih]

/-- A value resolves to itself where all its references do. -/
theorem resolveRef_self_iff (value : Json) : resolveRef py context value = .ok value ↔
    ∀ ref ∈ carried value, resolveRef py context ref = .ok ref := by
  induction value using Json.nested_induction with
  | scalar value noList noDict =>
    cases value with
    | obj fields => exact absurd rfl (noDict fields)
    | _ => exact ⟨fun _ _ none => absurd none List.not_mem_nil, fun _ => rfl⟩
  | arr items inside => exact ⟨fun _ _ none => absurd none List.not_mem_nil, fun _ => rfl⟩
  | obj fields inside =>
    cases literal : isRef fields with
    | true => simp [carried, literal]
    | false =>
      have itself : resolveRef py context (.obj fields) = .ok (.obj fields) ↔
          resolveEntries py context fields = .ok fields := by
        rw [resolveRef_dict literal]
        cases resolveEntries py context fields <;> simp [Except.map]
      have listed : carried (.obj fields) = carriedFields fields := by simp [carried, literal]
      rw [itself, resolveEntries_self, listed]
      constructor
      · intro all ref member
        obtain ⟨entry, present, within⟩ := mem_carriedFields.mp member
        exact (inside entry present).mp (all entry present) ref within
      · intro all entry present
        refine (inside entry present).mpr fun ref within => ?_
        exact all ref (mem_carriedFields.mpr ⟨entry, present, within⟩)

theorem firstMissing_append {refs others : List Json} :
    FirstMissing py context (refs ++ others) ↔ FirstMissing py context refs ∨
      ((∀ ref ∈ refs, Returns py context ref) ∧ FirstMissing py context others) := by
  induction refs with
  | nil => simp [FirstMissing]
  | cons ref rest ih =>
    simp only [List.cons_append, FirstMissing, ih, List.forall_mem_cons]
    tauto

theorem evaluateFields_cons :
    ((∃ found, evaluateFields py context ((key, value) :: rest) = .ok found) ↔
      Returns py context value ∧ ∃ found, evaluateFields py context rest = .ok found) ∧
    ((∃ error, evaluateFields py context ((key, value) :: rest) = .error error ∧
        error.kind = .keyError) ↔
      Missing py context value ∨ (Returns py context value ∧
        ∃ error, evaluateFields py context rest = .error error ∧ error.kind = .keyError)) := by
  simp only [evaluateFields, Returns, Missing]
  cases evaluate py context value with
  | error error => simp [bind, Except.bind]
  | ok found =>
    cases evaluateFields py context rest <;> simp [bind, Except.bind, pure, Except.pure]

/-- How the evaluation of a literal dict ends. -/
theorem evaluateFields_ends
    (inside : ∀ entry ∈ fields,
      (Returns py context entry.2 ↔ ∀ ref ∈ carried entry.2, Returns py context ref) ∧
      (Missing py context entry.2 ↔ FirstMissing py context (carried entry.2))) :
    ((∃ found, evaluateFields py context fields = .ok found) ↔
      ∀ ref ∈ carriedFields fields, Returns py context ref) ∧
    ((∃ error, evaluateFields py context fields = .error error ∧ error.kind = .keyError) ↔
      FirstMissing py context (carriedFields fields)) := by
  induction fields with
  | nil => simp [evaluateFields, carriedFields, FirstMissing]
  | cons entry rest ih =>
    obtain ⟨key, value⟩ := entry
    obtain ⟨returned, missed⟩ := ih fun entry member => inside entry (List.mem_cons_of_mem _ member)
    obtain ⟨first, absent⟩ := inside (key, value) List.mem_cons_self
    obtain ⟨returns, misses⟩ := @evaluateFields_cons py context rest key value
    unfold carriedFields
    rw [returns, misses, firstMissing_append, List.forall_mem_append, returned, missed, first, absent]
    exact ⟨Iff.rfl, Iff.rfl⟩

theorem evaluate_ends (value : Json) :
    (Returns py context value ↔ ∀ ref ∈ carried value, Returns py context ref) ∧
    (Missing py context value ↔ FirstMissing py context (carried value)) := by
  induction value using Json.nested_induction with
  | scalar value noList noDict =>
    cases value with
    | obj fields => exact absurd rfl (noDict fields)
    | _ => simp [Returns, Missing, evaluate, carried, FirstMissing]
  | arr items inside => simp [Returns, Missing, evaluate, carried, FirstMissing]
  | obj fields inside =>
    cases literal : isRef fields with
    | true => simp [carried, literal, FirstMissing]
    | false =>
      have listed : carried (.obj fields) = carriedFields fields := by simp [carried, literal]
      rw [listed, ← (evaluateFields_ends inside).1, ← (evaluateFields_ends inside).2]
      unfold Returns Missing
      rw [evaluate_dict literal]
      cases evaluateFields py context fields <;> simp [Except.map]

/-- A value that cannot be stored is a `TypeError`. -/
theorem missing_iff {value : Json} : Missing py context value ↔
    ∃ error, resolveRef py context value = .error error ∧ error.kind = .keyError := by
  unfold Missing resolveRef
  cases evaluate py context value with
  | error error => simp [bind, Except.bind]
  | ok found =>
    simp only [bind, Except.bind, reduceCtorEq, false_and, exists_false, false_iff, not_exists,
      not_and]
    intro error raised missing
    rw [Found.dumps_error found error raised] at missing
    cases missing

/-! ### Coming back to a reference -/

theorem resolveEntries_shape {others : Dict}
    (resolved : resolveEntries py context ((key, value) :: rest) = .ok others) :
    ∃ first values, others = (key, first) :: values ∧
      resolveEntries py context rest = .ok values := by
  revert resolved
  unfold resolveEntries
  simp only [evaluateFields]
  cases evaluate py context value with
  | error error =>
    intro raised
    cases raised
  | ok found =>
    cases evaluateFields py context rest with
    | error error =>
      intro raised
      cases raised
    | ok entries =>
      simp only [bind, Except.bind, pure, Except.pure, Found.dumpsEntries]
      cases found.dumps py with
      | error error =>
        intro raised
        cases raised
      | ok first =>
        cases Found.dumpsEntries py entries with
        | error error =>
          intro raised
          cases raised
        | ok values =>
          rintro ⟨⟩
          exact ⟨first, values, rfl, rfl⟩

/-- The entries of a literal dict keep their keys. -/
theorem resolveEntries_keys {others : Dict}
    (resolved : resolveEntries py context fields = .ok others) :
    others.map Prod.fst = fields.map Prod.fst := by
  induction fields generalizing others with
  | nil =>
    cases resolved
    rfl
  | cons entry rest ih =>
    obtain ⟨key, value⟩ := entry
    obtain ⟨first, values, rfl, after⟩ := resolveEntries_shape resolved
    rw [List.map_cons, List.map_cons, ih after]

theorem get?_isSome_iff : (Dict.get? fields key).isSome = true ↔ key ∈ fields.map Prod.fst := by
  simp [Dict.get?, List.lookup_isSome_iff]

theorem get?_of_coalesce (absent : coalesce py context fields = none) :
    Dict.get? fields "$coalesce" = none := by
  induction fields with
  | nil => rfl
  | cons entry rest ih =>
    obtain ⟨key, value⟩ := entry
    unfold coalesce at absent
    split at absent
    · cases value <;> cases absent
    · rename_i other
      have apart : ("$coalesce" == key) = false := by simpa using Ne.symm other
      rw [Dict.get?, List.lookup_cons, apart]
      exact ih absent

/-- What a literal dict comes to is no reference. -/
theorem literal_resolved {others : Dict} (literal : isRef fields = false)
    (resolved : resolveEntries py context fields = .ok others) : isRef others = false := by
  have looked (key : String) : (Dict.get? others key).isSome = (Dict.get? fields key).isSome := by
    rw [Bool.eq_iff_iff, get?_isSome_iff, get?_isSome_iff, resolveEntries_keys resolved]
  unfold isRef at literal ⊢
  rw [looked, looked, looked]
  exact literal

/-- The keys of a literal dict stay, and the reference has one that it lacks. -/
theorem literal_never {reference : Dict} (quoted : isRef reference = true)
    (literal : isRef fields = false) :
    resolveRef py context (.obj fields) ≠ .ok (.obj reference) := by
  rw [resolveRef_dict literal]
  cases resolved : resolveEntries py context fields with
  | error error => simp [Except.map]
  | ok others =>
    rintro ⟨⟩
    rw [literal_resolved literal resolved] at quoted
    cases quoted

theorem entry_smaller {entry : String × Json} (member : entry ∈ fields) :
    sizeOf entry.2 < sizeOf (Json.obj fields) := by
  obtain ⟨key, value⟩ := entry
  have inside := List.sizeOf_lt_of_mem member
  simp only [Prod.mk.sizeOf_spec, Json.obj.sizeOf_spec] at inside ⊢
  omega

theorem item_smaller {items : List Json} {item : Json} (member : item ∈ items) :
    sizeOf item < sizeOf (Json.arr items) := by
  have inside := List.sizeOf_lt_of_mem member
  simp only [Json.arr.sizeOf_spec]
  omega

theorem get?_smaller {found : Json} (looked : Dict.get? fields key = some found) :
    sizeOf found < sizeOf (Json.obj fields) := by
  have member : (key, found) ∈ fields := by
    obtain ⟨before, after, rfl, _⟩ := List.lookup_eq_some_iff.mp looked
    simp
  exact entry_smaller member

/-- Where something is done with the result, a list or a truth value comes out. -/
theorem applyTo_dict {path : String} {result : Found py.Object} {reference : Dict} :
    (applyTo py path fields result >>= Found.dumps py) = .ok (.obj reference) ↔
      Dict.get? fields "$filter" = none ∧ Dict.get? fields "$eq" = none ∧
        Dict.get? fields "$ne" = none ∧ result.dumps py = .ok (.obj reference) := by
  unfold applyTo
  cases Dict.get? fields "$filter" with
  | some spec =>
    cases result.items? with
    | none => simp [bind, Except.bind]
    | some items =>
      dsimp only
      cases filterItems py spec items with
      | error error => simp [bind, Except.bind, Except.map]
      | ok kept =>
        simp only [bind, Except.bind, Except.map, Found.dumps]
        cases Found.dumpsItems py kept <;> simp
  | none =>
    cases Dict.get? fields "$eq" <;> cases Dict.get? fields "$ne" <;>
      simp [bind, Except.bind, Found.dumps]

theorem resolveFrom_leads {path : Json} {reference : Dict} :
    (resolveFrom py context fields path >>= Found.dumps py) = .ok (.obj reference) ↔
      LeadsTo py context (.obj reference) fields path := by
  cases path with
  | str path =>
    simp only [resolveFrom, LeadsTo]
    cases dig py path (.json (.obj context)) (segments path) with
    | error error => simp [bind, Except.bind]
    | ok result =>
      have applied := @applyTo_dict py fields path result reference
      simp only [bind, Except.bind] at applied ⊢
      simp [applied]
  | _ => simp [resolveFrom, LeadsTo, bind, Except.bind]

theorem firstResolved_recurs {target : Json} {candidates : List Json} (some_dict : target ≠ .null)
    (parts : ∀ candidate ∈ candidates,
      resolveRef py context candidate = .ok target ↔ Recurs py context target candidate) :
    (∃ found, firstResolved py context candidates = .ok (some found) ∧
      found.dumps py = .ok target) ↔ RecursFirst py context target candidates := by
  induction candidates with
  | nil => simp [firstResolved, RecursFirst]
  | cons candidate rest ih =>
    have others := ih fun other member => parts other (List.mem_cons_of_mem _ member)
    unfold firstResolved RecursFirst
    rw [← others, ← parts candidate List.mem_cons_self, Passed]
    unfold resolveRef
    cases evaluate py context candidate with
    | error error =>
      by_cases missing : error.kind = .keyError <;> simp [missing, bind, Except.bind]
    | ok found =>
      cases none : found.isNone with
      | false => simp [none, bind, Except.bind]
      | true =>
        have null : found = .json .null := by
          cases found with
          | json value => cases value <;> first | rfl | cases none
          | _ => cases none
        simp [null, Found.isNone, Found.dumps, bind, Except.bind, Ne.symm some_dict]

/-- The value that `$coalesce` comes to before the default. -/
theorem coalesce_recurs {target : Json} (some_dict : target ≠ .null)
    (parts : ∀ entry ∈ fields, ∀ candidates, entry.2 = .arr candidates →
      ∀ candidate ∈ candidates,
        resolveRef py context candidate = .ok target ↔ Recurs py context target candidate) :
    (coalesce py context fields).map (fun first => ∃ found, first = .ok (some found) ∧
      found.dumps py = .ok target) = recursCoalesce py context target fields := by
  induction fields with
  | nil => rfl
  | cons entry rest ih =>
    obtain ⟨key, value⟩ := entry
    have others := ih fun entry member => parts entry (List.mem_cons_of_mem _ member)
    unfold coalesce recursCoalesce
    split
    · cases value with
      | arr candidates =>
        have first := parts (key, .arr candidates) List.mem_cons_self candidates rfl
        simp [firstResolved_recurs some_dict first]
      | _ => simp
    · exact others

/-- A value that is no larger than the reference resolves to it where it leads to it. -/
theorem resolveRef_recurs_iff {reference : Dict} (quoted : isRef reference = true) (value : Json)
    (small : sizeOf value ≤ sizeOf (Json.obj reference)) :
    resolveRef py context value = .ok (.obj reference) ↔
      Recurs py context (.obj reference) value := by
  -- The candidates of a `$coalesce` lie two levels below it, so the items of a list go along.
  suffices all : (sizeOf value ≤ sizeOf (Json.obj reference) →
      (resolveRef py context value = .ok (.obj reference) ↔
        Recurs py context (.obj reference) value)) ∧
      ∀ items, value = .arr items → ∀ item ∈ items, sizeOf item ≤ sizeOf (Json.obj reference) →
        (resolveRef py context item = .ok (.obj reference) ↔
          Recurs py context (.obj reference) item) from all.1 small
  clear small
  induction value using Json.nested_induction with
  | scalar value noList noDict =>
    refine ⟨fun _ => ?_, fun items same => absurd same (noList items)⟩
    cases value with
    | obj fields => exact absurd rfl (noDict fields)
    | _ => simp [resolveRef, evaluate, Recurs, bind, Except.bind, Found.dumps]
  | arr items inside =>
    refine ⟨fun _ => by simp [resolveRef, evaluate, Recurs, bind, Except.bind, Found.dumps], ?_⟩
    rintro others ⟨⟩ item member
    exact (inside item member).1
  | obj fields inside =>
    refine ⟨fun small => ?_, by rintro _ ⟨⟩⟩
    have apart {key : String} {found : Json} (looked : Dict.get? fields key = some found) :
        found ≠ .obj reference := by
      rintro rfl
      have smaller := get?_smaller looked
      omega
    have candidates : (coalesce py context fields).map (fun first => ∃ found,
        first = .ok (some found) ∧ found.dumps py = .ok (.obj reference)) =
        recursCoalesce py context (.obj reference) fields := by
      refine coalesce_recurs (by simp) fun entry member items listed item within => ?_
      have list_smaller := entry_smaller member
      have smaller := item_smaller within
      rw [listed] at list_smaller
      exact (inside entry member).2 items listed item within (by omega)
    cases literal : isRef fields with
    | false =>
      obtain ⟨noValue, noCoalesce, noFrom⟩ := isRef_eq_false_iff.mp literal
      rw [coalesce_eq_none noCoalesce, Option.map_none] at candidates
      simp [literal_never quoted literal, Recurs, noValue, ← candidates, noFrom]
    | true =>
      unfold resolveRef evaluate Recurs
      rw [← candidates]
      cases value : Dict.get? fields "$value" with
      | some inner => simp [bind, Except.bind, Found.dumps, apart value]
      | none =>
        cases found : coalesce py context fields with
        | some first =>
          cases first with
          | error error => simp [bind, Except.bind]
          | ok resolved =>
            cases resolved with
            | some resolved => simp [bind, Except.bind, pure, Except.pure]
            | none =>
              cases default : Dict.get? fields "$default" with
              | some default' =>
                simp [bind, Except.bind, pure, Except.pure, Found.dumps, apart default]
              | none =>
                simp [bind, Except.bind, throw, throwThe, MonadExceptOf.throw]
        | none =>
          cases path : Dict.get? fields "$from" with
          | some path => exact resolveFrom_leads
          | none =>
            have unlisted := isRef_eq_false_iff.mpr ⟨value, get?_of_coalesce found, path⟩
            cases literal.symm.trans unlisted

theorem resolveEntries_rewritten {others : Dict}
    (inside : ∀ entry ∈ fields, ∀ found,
      resolveRef py context entry.2 = .ok found ↔ Rewritten py context entry.2 found) :
    resolveEntries py context fields = .ok others ↔ RewrittenFields py context fields others := by
  induction fields generalizing others with
  | nil =>
    simp [resolveEntries, evaluateFields, RewrittenFields, Found.dumpsEntries, bind, Except.bind,
      eq_comm]
  | cons entry rest ih =>
    obtain ⟨key, value⟩ := entry
    have after {values : Dict} := @ih values fun entry member =>
      inside entry (List.mem_cons_of_mem _ member)
    unfold RewrittenFields
    constructor
    · intro resolved
      obtain ⟨first, values, rfl, _⟩ := resolveEntries_shape resolved
      obtain ⟨found, others⟩ := resolveEntries_cons.mp resolved
      exact ⟨first, values, rfl, (inside (key, value) List.mem_cons_self _).mp found,
        after.mp others⟩
    · rintro ⟨first, values, rfl, found, others⟩
      exact resolveEntries_cons.mpr
        ⟨(inside (key, value) List.mem_cons_self _).mpr found, after.mpr others⟩

theorem resolveRef_rewritten_iff (value found : Json) :
    resolveRef py context value = .ok found ↔ Rewritten py context value found := by
  induction value using Json.nested_induction generalizing found with
  | scalar value noList noDict =>
    cases value with
    | obj fields => exact absurd rfl (noDict fields)
    | _ => simp [resolveRef, evaluate, Rewritten, bind, Except.bind, Found.dumps, eq_comm]
  | arr items inside =>
    simp [resolveRef, evaluate, Rewritten, bind, Except.bind, Found.dumps, eq_comm]
  | obj fields inside =>
    cases literal : isRef fields with
    | true => simp [Rewritten, literal]
    | false =>
      have entries {others : Dict} := @resolveEntries_rewritten py context fields others inside
      rw [resolveRef_dict literal]
      cases resolved : resolveEntries py context fields with
      | error error => simp [Rewritten, literal, ← entries, resolved, Except.map]
      | ok others => simp [Rewritten, literal, ← entries, resolved, Except.map, eq_comm]

theorem carried_isRef {ref : Json} (member : ref ∈ carried value) :
    ∃ reference, ref = .obj reference ∧ isRef reference = true := by
  induction value using Json.nested_induction with
  | scalar value noList noDict =>
    cases value with
    | obj fields => exact absurd rfl (noDict fields)
    | _ => cases member
  | arr items inside => cases member
  | obj fields inside =>
    unfold carried at member
    split at member
    · rename_i literal
      exact ⟨fields, List.mem_singleton.mp member, literal⟩
    · obtain ⟨entry, present, within⟩ := mem_carriedFields.mp member
      exact inside entry present within

/-- What `Harmless` is for: the value resolves to itself, or is missing. -/
theorem harmless_iff (value : Json) : Harmless py context value ↔
    resolveRef py context value = .ok value ∨
      ∃ error, resolveRef py context value = .error error ∧ error.kind = .keyError := by
  have comes_back : (∀ ref ∈ carried value, Recurs py context ref ref) ↔
      ∀ ref ∈ carried value, resolveRef py context ref = .ok ref := by
    refine forall₂_congr fun ref member => ?_
    obtain ⟨reference, rfl, quoted⟩ := carried_isRef member
    exact (resolveRef_recurs_iff quoted _ le_rfl).symm
  rw [Harmless, comes_back, resolveRef_self_iff, ← missing_iff, (evaluate_ends value).2]

end

end Refs

end QueueWorkflows
