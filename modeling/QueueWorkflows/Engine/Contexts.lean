import QueueWorkflows.Base.Paths
import QueueWorkflows.Engine.Refs
import QueueWorkflows.Engine.System
import Mathlib.Data.List.Nodup
import Mathlib.Data.List.TakeWhile
import Mathlib.Data.Option.Basic

/-! The two contexts of the dispatcher. `_eval_skip_context` replaces the entry of a
completed node by its delta; `_ref_context` merges the delta into the entry. -/

namespace QueueWorkflows

/-! ### Dicts -/

namespace Dict

def keys (dict : Dict) : List String :=
  dict.map Prod.fst

variable {dict first second : Dict} {key name : String} {value : Json}

theorem get?_nil : get? [] name = none := rfl

theorem get?_cons : get? ((key, value) :: dict) name =
    if name = key then some value else get? dict name := by
  unfold get?
  rw [List.lookup_cons]
  by_cases same : name = key
  · simp [same]
  · simp [same, beq_eq_false_iff_ne.mpr same]

theorem get?_eq_none : get? dict name = none ↔ name ∉ dict.keys := by
  induction dict with
  | nil => simp [get?_nil, keys]
  | cons entry rest ih =>
    rw [get?_cons]
    by_cases same : name = entry.1
    · simp [same, keys]
    · simpa [same, keys] using ih

theorem get?_set : get? (set dict key value) name =
    if name = key then some value else get? dict name := by
  induction dict with
  | nil => simp [set, get?_cons, get?_nil]
  | cons entry rest ih =>
    obtain ⟨other, old⟩ := entry
    unfold set
    by_cases same : other = key
    · subst same
      simp only [beq_self_eq_true, if_true, get?_cons]
      split <;> rfl
    · simp only [beq_eq_false_iff_ne.mpr same, Bool.false_eq_true, if_false, get?_cons, ih]
      by_cases here : name = other
      · simp [here, same]
      · simp [here]

theorem mem_keys_set : name ∈ (set dict key value).keys ↔ name = key ∨ name ∈ dict.keys := by
  rw [← not_iff_not, ← get?_eq_none, get?_set, not_or, ← get?_eq_none]
  split <;> simp [*]

theorem nodup_set (unique : dict.keys.Nodup) : (set dict key value).keys.Nodup := by
  induction dict with
  | nil => simp [set, keys]
  | cons entry rest ih =>
    obtain ⟨other, old⟩ := entry
    obtain ⟨apart, rested⟩ := List.nodup_cons.mp unique
    unfold set
    by_cases same : other = key
    · subst same
      simp only [beq_self_eq_true, if_true]
      exact unique
    · have absent : other ∉ (set rest key value).keys := by
        rw [mem_keys_set]
        exact not_or.mpr ⟨same, apart⟩
      simp only [beq_eq_false_iff_ne.mpr same, Bool.false_eq_true, if_false]
      exact List.nodup_cons.mpr ⟨absent, ih rested⟩

theorem get?_merge (unique : second.keys.Nodup) :
    get? (merge first second) name = (get? second name).or (get? first name) := by
  unfold merge
  induction second generalizing first with
  | nil => rfl
  | cons entry rest ih =>
    obtain ⟨key, value⟩ := entry
    obtain ⟨apart, rested⟩ := List.nodup_cons.mp unique
    rw [List.foldl_cons, ih rested, get?_set, get?_cons]
    by_cases same : name = key
    · have absent : get? rest name = none := get?_eq_none.mpr (same ▸ apart)
      simp [same ▸ absent, same]
    · simp [same]

theorem nodup_merge (unique : first.keys.Nodup) : (merge first second).keys.Nodup := by
  unfold merge
  induction second generalizing first with
  | nil => exact unique
  | cons entry rest ih => exact ih (nodup_set unique)

theorem mem_iff_get? (unique : dict.keys.Nodup) :
    (name, value) ∈ dict ↔ get? dict name = some value := by
  induction dict with
  | nil => simp [get?_nil]
  | cons entry rest ih =>
    obtain ⟨key, other⟩ := entry
    obtain ⟨apart, rested⟩ := List.nodup_cons.mp unique
    rw [List.mem_cons, ih rested, get?_cons]
    by_cases same : name = key
    · have absent : get? rest name = none := get?_eq_none.mpr (same ▸ apart)
      rw [absent]
      simp [same, eq_comm]
    · simp [same]

/-- Two dicts with the same entries differ in their order alone. -/
theorem perm_iff_get? (unique : first.keys.Nodup) (others : second.keys.Nodup) :
    first.Perm second ↔ ∀ name, get? first name = get? second name := by
  have same : first.Perm second ↔ ∀ entry, entry ∈ first ↔ entry ∈ second :=
    List.perm_ext_iff_of_nodup unique.of_map others.of_map
  rw [same]
  constructor
  · intro entries name
    refine Option.ext fun value => ?_
    rw [← mem_iff_get? unique, ← mem_iff_get? others]
    exact entries (name, value)
  · rintro looks ⟨name, value⟩
    rw [mem_iff_get? unique, mem_iff_get? others, looks]

theorem merge_perm_iff (unique : first.keys.Nodup) (others : second.keys.Nodup) :
    second.Perm (merge first second) ↔ ∀ key ∈ first.keys, key ∈ second.keys := by
  rw [perm_iff_get? others (nodup_merge unique)]
  constructor
  · intro looks key member
    by_contra absent
    have missing := looks key
    rw [get?_merge others, get?_eq_none.mpr absent, Option.none_or] at missing
    exact get?_eq_none.mp missing.symm member
  · intro inside name
    rw [get?_merge others]
    cases found : get? second name with
    | some value => rfl
    | none =>
      have absent : name ∉ first.keys := fun member => get?_eq_none.mp found (inside name member)
      rw [get?_eq_none.mpr absent]
      rfl

end Dict

/-! ### Results that differ in the order of keys -/

mutual

/-- The same value, up to the order of the keys in its dicts. -/
inductive Reordered {Object : Type} : Found Object → Found Object → Prop
  | refl (value : Found Object) : Reordered value value
  | keys {first second : Dict} (unique : first.keys.Nodup) (same : first.Perm second) :
      Reordered (.json (.obj first)) (.json (.obj second))
  | dict {first second : List (String × Found Object)} (entries : ReorderedEntries first second) :
      Reordered (.dict first) (.dict second)

inductive ReorderedEntries {Object : Type} :
    List (String × Found Object) → List (String × Found Object) → Prop
  | nil : ReorderedEntries [] []
  | cons (key : String) {first second : Found Object}
      {others further : List (String × Found Object)} (value : Reordered first second)
      (rest : ReorderedEntries others further) :
      ReorderedEntries ((key, first) :: others) ((key, second) :: further)

end

/-- Results in relation, or the same kind of error. -/
def AgreeOn {α : Type} (R : α → α → Prop) : Except PyErr α → Except PyErr α → Prop
  | .ok first, .ok second => R first second
  | .error first, .error second => first.kind = second.kind
  | _, _ => False

/-- Two entries of a context: the same, or dicts with the same entries. -/
inductive Close : Json → Json → Prop
  | refl (value : Json) : Close value value
  | reordered {first second : Dict} (unique : first.keys.Nodup) (same : first.Perm second) :
      Close (.obj first) (.obj second)

/-- What a path can lead to in two contexts. -/
inductive Found.Close {Object : Type} : Found Object → Found Object → Prop
  | refl (value : Found Object) : Close value value
  | json {first second : Json} (close : QueueWorkflows.Close first second) :
      Close (.json first) (.json second)

/-- Under every name a path can begin with the two contexts have close entries, or none. -/
def Matching (first second : Dict) : Prop :=
  ∀ name : String, '.' ∉ name.toList →
    Option.Rel Close (Dict.get? first name) (Dict.get? second name)

theorem AgreeOn.refl {α : Type} {R : α → α → Prop} (same : ∀ value, R value value)
    (outcome : Except PyErr α) : AgreeOn R outcome outcome := by
  cases outcome with
  | ok value => exact same value
  | error error => exact rfl

theorem AgreeOn.bind {α β : Type} {R : α → α → Prop} {S : β → β → Prop}
    {first second : Except PyErr α} {next after : α → Except PyErr β}
    (agree : AgreeOn R first second)
    (agrees : ∀ one other, R one other → AgreeOn S (next one) (after other)) :
    AgreeOn S (first >>= next) (second >>= after) := by
  cases first with
  | ok one =>
    cases second with
    | ok other => exact agrees one other agree
    | error error => cases agree
  | error error =>
    cases second with
    | ok other => cases agree
    | error other => exact agree

namespace Json

theorem sameFields_eq_all {fields others : Dict} :
    sameFields fields others = fields.all fun entry => (others.lookup entry.1).any entry.2.same := by
  induction fields with
  | nil => rfl
  | cons entry rest ih => simp [sameFields, ih]

/-- The order of the keys does not matter to `==`. -/
theorem same_perm {first second : Dict} (perm : first.Perm second) (expected : Json) :
    (Json.obj first).same expected = (Json.obj second).same expected := by
  cases expected with
  | obj fields => simp only [same, sameFields_eq_all, perm.length_eq, perm.all_eq]
  | _ => rfl

end Json

theorem Reordered.isNone {Object : Type} {one other : Found Object} (alike : Reordered one other) :
    one.isNone = other.isNone := by
  cases alike <;> rfl

theorem Close.of_reordered {Object : Type} {one other : Json}
    (alike : Reordered (.json one : Found Object) (.json other)) : Close one other := by
  cases alike with
  | refl => exact .refl _
  | keys unique same => exact .reordered unique same

namespace Refs

variable {py : Python} {first second : Dict}

/-- A step into a dict of a context, and the steps after it. -/
theorem dig_reordered {path : String} {part : String} {rest : List String}
    (unique : first.keys.Nodup) (same : first.Perm second) :
    AgreeOn Found.Close (dig py path (.json (.obj first)) (part :: rest))
      (dig py path (.json (.obj second)) (part :: rest)) := by
  have others : second.keys.Nodup := (same.map Prod.fst).nodup_iff.mp unique
  have looks : Dict.get? first part = Dict.get? second part :=
    (Dict.perm_iff_get? unique others).mp same part
  simp only [dig, Found.attr?, looks]
  exact .refl .refl _

theorem dig_agrees {path : String} {one other : Json} {parts : List String}
    (close : Close one other) :
    AgreeOn Found.Close (dig py path (.json one) parts) (dig py path (.json other) parts) := by
  cases close with
  | refl => exact .refl .refl _
  | reordered unique same =>
    cases parts with
    | nil => exact Found.Close.json (.reordered unique same)
    | cons part rest => exact dig_reordered unique same

theorem applyTo_agrees {path : String} {fields : Dict} {one other : Found py.Object}
    (close : Found.Close one other) :
    AgreeOn Reordered (applyTo py path fields one) (applyTo py path fields other) := by
  rcases close with _ | ⟨_ | ⟨unique, same⟩⟩
  · exact .refl .refl _
  · exact .refl .refl _
  · unfold applyTo
    cases Dict.get? fields "$filter" with
    | some spec => exact rfl
    | none =>
      dsimp only
      simp only [Found.same, Json.same_perm same]
      cases Dict.get? fields "$eq" with
      | some expected => exact Reordered.refl _
      | none =>
        cases Dict.get? fields "$ne" with
        | some expected => exact Reordered.refl _
        | none => exact Reordered.keys unique same

/-- The value under a path, in either context. -/
theorem resolveFrom_agrees {fields : Dict} {path : Json} (matching : Matching first second) :
    AgreeOn Reordered (resolveFrom py first fields path) (resolveFrom py second fields path) := by
  cases path with
  | str path =>
    have found : AgreeOn Found.Close (dig py path (.json (.obj first)) (segments path))
        (dig py path (.json (.obj second)) (segments path)) := by
      cases parts : segments path with
      | nil => exact absurd parts (by simp [segments])
      | cons part rest =>
        have clear : '.' ∉ part.toList := by
          have member : part ∈ segments path := parts ▸ List.mem_cons_self
          obtain ⟨letters, inside, rfl⟩ := List.mem_map.mp member
          simpa using Paths.notMem_of_mem_splitOn inside
        simp only [dig, Found.attr?]
        have entry := matching part clear
        revert entry
        cases Dict.get? first part <;> cases Dict.get? second part
        · exact fun _ => rfl
        · exact nofun
        · exact nofun
        · rintro (close | _)
          exact dig_agrees close
    exact found.bind fun one other close => applyTo_agrees close
  | _ => exact .refl .refl _

theorem firstResolved_agrees {candidates : List Json}
    (parts : ∀ candidate ∈ candidates,
      AgreeOn Reordered (evaluate py first candidate) (evaluate py second candidate)) :
    AgreeOn (Option.Rel Reordered) (firstResolved py first candidates)
      (firstResolved py second candidates) := by
  induction candidates with
  | nil => exact Option.Rel.none
  | cons candidate rest ih =>
    have others := ih fun other member => parts other (List.mem_cons_of_mem _ member)
    have agree := parts candidate List.mem_cons_self
    unfold firstResolved
    revert agree
    cases evaluate py first candidate with
    | ok one =>
      cases evaluate py second candidate with
      | error error => exact nofun
      | ok other =>
        intro alike
        have alike : Reordered one other := alike
        simp only [alike.isNone]
        split
        · exact others
        · exact Option.Rel.some alike
    | error error =>
      cases evaluate py second candidate with
      | ok other => exact nofun
      | error other =>
        intro same
        have same : error.kind = other.kind := same
        simp only [same]
        split
        · exact others
        · exact same

/-- Both have a `$coalesce`, with agreeing outcomes, or none has. -/
theorem coalesce_agrees {fields : Dict}
    (parts : ∀ entry ∈ fields, ∀ candidates, entry.2 = .arr candidates →
      ∀ candidate ∈ candidates,
        AgreeOn Reordered (evaluate py first candidate) (evaluate py second candidate)) :
    Option.Rel (AgreeOn (Option.Rel Reordered)) (coalesce py first fields)
      (coalesce py second fields) := by
  induction fields with
  | nil => exact .none
  | cons entry rest ih =>
    obtain ⟨key, value⟩ := entry
    have others := ih fun entry member => parts entry (List.mem_cons_of_mem _ member)
    unfold coalesce
    split
    · cases value with
      | arr candidates =>
        exact .some (firstResolved_agrees
          (parts (key, .arr candidates) List.mem_cons_self candidates rfl))
      | _ => exact .some rfl
    · exact others

theorem evaluateFields_agrees {fields : Dict}
    (parts : ∀ entry ∈ fields,
      AgreeOn Reordered (evaluate py first entry.2) (evaluate py second entry.2)) :
    AgreeOn ReorderedEntries (evaluateFields py first fields) (evaluateFields py second fields) := by
  induction fields with
  | nil => exact ReorderedEntries.nil
  | cons entry rest ih =>
    obtain ⟨key, value⟩ := entry
    unfold evaluateFields
    refine (parts (key, value) List.mem_cons_self).bind fun one other alike => ?_
    refine (ih fun entry member => parts entry (List.mem_cons_of_mem _ member)).bind ?_
    exact fun others further rested => ReorderedEntries.cons key alike rested

/-- Matching contexts cannot be told apart. -/
theorem evaluate_agrees (matching : Matching first second) (value : Json) :
    AgreeOn Reordered (evaluate py first value) (evaluate py second value) := by
  -- The candidates of a `$coalesce` lie two levels below it, so the items of a list go along.
  suffices all : AgreeOn Reordered (evaluate py first value) (evaluate py second value) ∧
      ∀ items, value = .arr items → ∀ item ∈ items,
        AgreeOn Reordered (evaluate py first item) (evaluate py second item) from all.1
  induction value using Json.nested_induction with
  | scalar value noList noDict =>
    refine ⟨?_, fun items same => absurd same (noList items)⟩
    cases value with
    | obj fields => exact absurd rfl (noDict fields)
    | _ => exact .refl .refl _
  | arr items inside =>
    refine ⟨.refl .refl _, ?_⟩
    rintro others ⟨⟩ item member
    exact (inside item member).1
  | obj fields inside =>
    refine ⟨?_, by rintro _ ⟨⟩⟩
    have candidates := coalesce_agrees fun entry member => (inside entry member).2
    have entries := evaluateFields_agrees fun entry member => (inside entry member).1
    unfold evaluate
    cases Dict.get? fields "$value" with
    | some literal => exact .refl .refl _
    | none =>
      revert candidates
      cases coalesce py first fields <;> cases coalesce py second fields
      · intro _
        cases Dict.get? fields "$from" with
        | some path => exact resolveFrom_agrees matching
        | none => exact entries.bind fun one other alike => Reordered.dict alike
      · rintro ⟨⟩
      · rintro ⟨⟩
      · rintro (agree | _)
        refine agree.bind fun one other chosen => ?_
        rcases chosen with alike | _
        · exact alike
        · exact .refl .refl _

/-- A path of one name. -/
theorem evaluate_name {context : Dict} {name : String} (clear : '.' ∉ name.toList) :
    evaluate py context (.obj [("$from", .str name)]) =
      match Dict.get? context name with
      | some value => .ok (.json value)
      | none => .error ⟨.keyError, name ++ ": missing segment " ++ py.reprOf (.str name)⟩ := by
  have parts : segments name = [name] := by
    simp [segments, List.splitOn_eq_singleton clear]
  have unfolded : evaluate py context (.obj [("$from", .str name)]) =
      dig py name (.json (.obj context)) (segments name) >>=
        applyTo py name [("$from", .str name)] := rfl
  rw [unfolded, parts]
  simp only [dig, Found.attr?]
  cases Dict.get? context name <;> rfl

/-- Contexts that no expression tells apart match. -/
theorem evaluate_agrees_iff : (∀ value,
      AgreeOn Reordered (evaluate py first value) (evaluate py second value)) ↔
    Matching first second := by
  refine ⟨fun agrees name clear => ?_, fun matching => evaluate_agrees matching⟩
  have agree := agrees (.obj [("$from", .str name)])
  rw [evaluate_name clear, evaluate_name clear] at agree
  revert agree
  cases Dict.get? first name <;> cases Dict.get? second name
  · exact fun _ => .none
  · exact nofun
  · exact nofun
  · exact fun alike => .some (Close.of_reordered alike)

end Refs

/-! ### The two builders -/

/-- A completed row with an output. -/
def Gives (job : NodeJob) : Prop :=
  job.status = .completed ∧ job.contextDelta.truthy = true

instance (job : NodeJob) : Decidable (Gives job) :=
  inferInstanceAs (Decidable (_ ∧ _))

/-- The entry that a delta is merged into; a falsy one counts as empty. -/
def entryOf (context : Dict) (name : String) : Json :=
  ((Dict.get? context name).filter Json.truthy).getD (.obj [])

/-- `_ref_context` cannot merge the row, and ends its loop there. -/
def blocks (context : Dict) (job : NodeJob) : Bool :=
  decide (Gives job ∧ job.nodeId ≠ "") &&
    match entryOf context job.nodeId, job.contextDelta with
    | .obj _, .obj _ => false
    | _, _ => true

/-- The rows before the first that blocks. -/
def mergedRows (context : Dict) (rows : List NodeJob) : List NodeJob :=
  rows.takeWhile fun job => !blocks context job

/-- Each output reads alike in both contexts. One that is merged into an entry of the run's
context has all the keys of that entry; one that is not merged is there already. -/
structure ReadAlike (context : Dict) (rows : List NodeJob) : Prop where
  merged : ∀ job ∈ mergedRows context rows, Gives job → '.' ∉ job.nodeId.toList →
    job.nodeId ≠ "" → ∀ old delta, Dict.get? context job.nodeId = some (.obj old) →
      job.contextDelta = .obj delta → ∀ key ∈ Dict.keys old, key ∈ Dict.keys delta
  unmerged : ∀ job ∈ rows, Gives job → '.' ∉ job.nodeId.toList →
    (job ∈ mergedRows context rows → job.nodeId = "") →
      ∃ value, Dict.get? context job.nodeId = some value ∧ Close job.contextDelta value

section Builders

variable {context base : Dict} {rows : List NodeJob} {job : NodeJob} {name : String}

/-- The entries that some rows of a list set. -/
def overlay (gives : NodeJob → Prop) [DecidablePred gives] (value : NodeJob → Json)
    (context : Dict) (rows : List NodeJob) : Dict :=
  rows.foldl (fun context job =>
    if gives job then Dict.set context job.nodeId (value job) else context) context

theorem overlay_other {gives : NodeJob → Prop} [DecidablePred gives] {value : NodeJob → Json}
    (others : ∀ job ∈ rows, gives job → job.nodeId ≠ name) :
    Dict.get? (overlay gives value context rows) name = Dict.get? context name := by
  unfold overlay
  induction rows generalizing context with
  | nil => rfl
  | cons first rest ih =>
    have rested := fun job member => others job (List.mem_cons_of_mem _ member)
    rw [List.foldl_cons, ih rested]
    split
    · rename_i taken
      rw [Dict.get?_set, if_neg (Ne.symm (others first List.mem_cons_self taken))]
    · rfl

theorem overlay_given {gives : NodeJob → Prop} [DecidablePred gives] {value : NodeJob → Json}
    (distinct : (rows.map NodeJob.nodeId).Nodup) (member : job ∈ rows) (taken : gives job) :
    Dict.get? (overlay gives value context rows) job.nodeId = some (value job) := by
  induction rows generalizing context with
  | nil => cases member
  | cons first rest ih =>
    obtain ⟨apart, rested⟩ := List.nodup_cons.mp distinct
    rcases List.mem_cons.mp member with rfl | inside
    · have others (other : NodeJob) (present : other ∈ rest) (_ : gives other) :
          other.nodeId ≠ job.nodeId :=
        fun same => apart (same ▸ List.mem_map_of_mem present)
      have last : Dict.get? (overlay gives value (Dict.set context job.nodeId (value job)) rest)
          job.nodeId = Dict.get? (Dict.set context job.nodeId (value job)) job.nodeId :=
        overlay_other others
      rw [Dict.get?_set, if_pos rfl] at last
      rw [← last, overlay, List.foldl_cons, if_pos taken]
      rfl
    · exact ih rested inside

theorem blocks_eq_false (gives : Gives job) (named : job.nodeId ≠ "") :
    blocks context job = false ↔
      ∃ old delta, entryOf context job.nodeId = .obj old ∧ job.contextDelta = .obj delta := by
  unfold blocks
  rw [decide_eq_true ⟨gives, named⟩, Bool.true_and]
  cases entryOf context job.nodeId with
  | obj old => cases job.contextDelta <;> simp
  | _ => simp

/-- The loop of `_ref_context` on one row. -/
theorem mergeSiblings_cons : Dispatcher.mergeSiblings context (job :: rows) =
    if Gives job ∧ job.nodeId ≠ "" then
      match entryOf context job.nodeId, job.contextDelta with
      | .obj old, .obj delta => Dispatcher.mergeSiblings
          (Dict.set context job.nodeId (.obj (Dict.merge old delta))) rows
      | _, _ => context
    else Dispatcher.mergeSiblings context rows := by
  rw [Dispatcher.mergeSiblings]
  by_cases gives : Gives job ∧ job.nodeId ≠ ""
  · rw [if_pos gives, if_pos ⟨gives.1.1, gives.1.2, gives.2⟩]
    rfl
  · rw [if_neg gives, if_neg fun all => gives ⟨⟨all.1, all.2.1⟩, all.2.2⟩]

/-- What a row that does not block makes of its entry. -/
def mergedEntry (context : Dict) (job : NodeJob) : Json :=
  match entryOf context job.nodeId, job.contextDelta with
  | .obj old, .obj delta => .obj (Dict.merge old delta)
  | _, _ => .null

/-- The loop of `_ref_context`. The context that it has built so far is the run's own as far as
the rows to come are concerned. -/
theorem mergeSiblings_eq_overlay
    (same : ∀ job ∈ rows, entryOf context job.nodeId = entryOf base job.nodeId)
    (distinct : (rows.map NodeJob.nodeId).Nodup) :
    Dispatcher.mergeSiblings context rows =
      overlay (fun job => Gives job ∧ job.nodeId ≠ "") (mergedEntry base) context
        (mergedRows base rows) := by
  induction rows generalizing context with
  | nil => rfl
  | cons first rest ih =>
    obtain ⟨apart, rested⟩ := List.nodup_cons.mp distinct
    have later := fun job member => same job (List.mem_cons_of_mem _ member)
    rw [mergeSiblings_cons, same first List.mem_cons_self]
    by_cases gives : Gives first ∧ first.nodeId ≠ ""
    · rw [if_pos gives]
      cases blocking : blocks base first with
      | true =>
        have taken : mergedRows base (first :: rest) = [] := by simp [mergedRows, blocking]
        rw [taken]
        split
        · rename_i old delta here output
          have free := (blocks_eq_false gives.1 gives.2).mpr ⟨old, delta, here, output⟩
          rw [free] at blocking
          cases blocking
        · rfl
      | false =>
        obtain ⟨old, delta, here, output⟩ := (blocks_eq_false gives.1 gives.2).mp blocking
        have taken : mergedRows base (first :: rest) = first :: mergedRows base rest := by
          simp [mergedRows, blocking]
        have entry : mergedEntry base first = .obj (Dict.merge old delta) := by
          simp only [mergedEntry, here, output]
        rw [taken, overlay, List.foldl_cons, if_pos gives, entry, here, output]
        refine ih (fun job member => ?_) rested
        have different : job.nodeId ≠ first.nodeId :=
          fun clash => apart (clash ▸ List.mem_map_of_mem member)
        rw [← later job member]
        simp only [entryOf, Dict.get?_set, if_neg different]
    · have free : blocks base first = false := by simp [blocks, gives]
      have taken : mergedRows base (first :: rest) = first :: mergedRows base rest := by
        simp [mergedRows, free]
      rw [if_neg gives, taken, overlay, List.foldl_cons, if_neg gives]
      exact ih later rested

theorem entryOf_cases {old : Dict} (entry : entryOf context name = .obj old) :
    Dict.get? context name = some (.obj old) ∨ old = [] := by
  unfold entryOf at entry
  cases found : Dict.get? context name with
  | none =>
    rw [found] at entry
    cases entry
    exact .inr rfl
  | some value =>
    cases truth : value.truthy with
    | true =>
      simp only [found, Option.filter_some, truth, if_true, Option.getD_some] at entry
      exact .inl (congrArg some entry)
    | false =>
      simp only [found, Option.filter_some, truth, Bool.false_eq_true, if_false,
        Option.getD_none] at entry
      cases entry
      exact .inr rfl

theorem entryOf_obj {old : Dict} (found : Dict.get? context name = some (.obj old)) :
    entryOf context name = .obj old := by
  rw [entryOf, found]
  cases old <;> rfl

theorem Close.perm {first second : Dict} (close : Close (.obj first) (.obj second)) :
    first.Perm second := by
  cases close with
  | refl => exact .refl _
  | reordered unique same => exact same

/-- Of the rows of a run there is one per node. -/
theorem eq_of_nodeId {other : NodeJob} (distinct : (rows.map NodeJob.nodeId).Nodup)
    (member : job ∈ rows) (present : other ∈ rows) (same : other.nodeId = job.nodeId) :
    other = job :=
  List.inj_on_of_nodup_map distinct present member same

/-- The entry of a row that the loop has not merged. -/
theorem merge_unmerged (distinct : (rows.map NodeJob.nodeId).Nodup) (member : job ∈ rows)
    (out : job ∈ mergedRows context rows → job.nodeId = "") :
    Dict.get? (Dispatcher.mergeSiblings context rows) job.nodeId =
      Dict.get? context job.nodeId := by
  rw [mergeSiblings_eq_overlay (fun _ _ => rfl) distinct]
  refine overlay_other fun other taken gives same => ?_
  have present : other ∈ rows := List.takeWhile_subset _ taken
  cases eq_of_nodeId distinct member present same
  exact gives.2 (out taken)

/-- The entry of a row that the loop has merged. -/
theorem merge_merged (distinct : (rows.map NodeJob.nodeId).Nodup)
    (taken : job ∈ mergedRows context rows) (gives : Gives job) (named : job.nodeId ≠ "") :
    ∃ old delta, entryOf context job.nodeId = .obj old ∧ job.contextDelta = .obj delta ∧
      Dict.get? (Dispatcher.mergeSiblings context rows) job.nodeId =
        some (.obj (Dict.merge old delta)) := by
  have free : blocks context job = false := by
    simpa using List.mem_takeWhile_imp taken
  obtain ⟨old, delta, here, output⟩ := (blocks_eq_false gives named).mp free
  refine ⟨old, delta, here, output, ?_⟩
  have apart : ((mergedRows context rows).map NodeJob.nodeId).Nodup :=
    distinct.sublist ((List.takeWhile_sublist _).map _)
  rw [mergeSiblings_eq_overlay (fun _ _ => rfl) distinct, overlay_given apart taken ⟨gives, named⟩]
  simp only [mergedEntry, here, output]

/-- The two contexts match exactly where each output reads alike. -/
theorem matching_iff {run : RunRow} (distinct : (rows.map NodeJob.nodeId).Nodup)
    (entries : ∀ name fields, Dict.get? run.context name = some (.obj fields) →
      (Dict.keys fields).Nodup)
    (outputs : ∀ job ∈ rows, ∀ delta, job.contextDelta = .obj delta → (Dict.keys delta).Nodup) :
    Matching (Dispatcher.evalSkipContext run rows) (Dispatcher.mergeSiblings run.context rows) ↔
      ReadAlike run.context rows := by
  have skipped : Dispatcher.evalSkipContext run rows =
      overlay Gives NodeJob.contextDelta run.context rows := rfl
  rw [skipped]
  constructor
  · intro matching
    refine ⟨fun job taken gives clear named old delta found output key inside => ?_,
      fun job member gives clear out => ?_⟩
    · have member : job ∈ rows := List.takeWhile_subset _ taken
      obtain ⟨known, output', here, same, merged⟩ := merge_merged distinct taken gives named
      cases output.symm.trans same
      cases (entryOf_obj found).symm.trans here
      have close := matching job.nodeId clear
      rw [overlay_given distinct member gives, merged, output] at close
      cases close with
      | some close =>
        have unique := outputs job member delta output
        exact (Dict.merge_perm_iff (entries _ _ found) unique).mp close.perm key inside
    · have close := matching job.nodeId clear
      rw [overlay_given distinct member gives, merge_unmerged distinct member out] at close
      cases found : Dict.get? run.context job.nodeId with
      | none =>
        rw [found] at close
        cases close
      | some value =>
        rw [found] at close
        cases close with
        | some close => exact ⟨value, rfl, close⟩
  · intro alike name clear
    by_cases outputs_here : ∃ job ∈ rows, Gives job ∧ job.nodeId = name
    · obtain ⟨job, member, gives, rfl⟩ := outputs_here
      rw [overlay_given distinct member gives]
      by_cases taken : job ∈ mergedRows run.context rows ∧ job.nodeId ≠ ""
      · obtain ⟨old, delta, here, output, merged⟩ := merge_merged distinct taken.1 gives taken.2
        have unique := outputs job member delta output
        have inside : ∀ key ∈ Dict.keys old, key ∈ Dict.keys delta := by
          rcases entryOf_cases here with found | rfl
          · exact alike.merged job taken.1 gives clear taken.2 old delta found output
          · exact fun _ none => absurd none List.not_mem_nil
        have known : (Dict.keys old).Nodup := by
          rcases entryOf_cases here with found | rfl
          · exact entries _ _ found
          · exact List.nodup_nil
        rw [merged, output]
        exact .some (.reordered unique ((Dict.merge_perm_iff known unique).mpr inside))
      · have out : job ∈ mergedRows run.context rows → job.nodeId = "" :=
          fun reached => by_contra fun named => taken ⟨reached, named⟩
        obtain ⟨value, found, close⟩ := alike.unmerged job member gives clear out
        rw [merge_unmerged distinct member out, found]
        exact .some close
    · have others (job : NodeJob) (member : job ∈ rows) (gives : Gives job) : job.nodeId ≠ name :=
        fun same => outputs_here ⟨job, member, gives, same⟩
      have merged (job : NodeJob) (taken : job ∈ mergedRows run.context rows)
          (gives : Gives job ∧ job.nodeId ≠ "") : job.nodeId ≠ name :=
        others job (List.takeWhile_subset _ taken) gives.1
      rw [overlay_other others, mergeSiblings_eq_overlay (fun _ _ => rfl) distinct,
        overlay_other merged]
      cases Dict.get? run.context name with
      | none => exact .none
      | some value => exact .some (.refl value)

theorem nodup_nodeIds {db : Db} {runId : String} : ((db.jobsOf runId).map NodeJob.nodeId).Nodup :=
  (Db.nodup_jobs db).filter _ |>.map_on fun first present second other same => by
    obtain ⟨stored, mine⟩ := Db.mem_jobsOf.mp present
    obtain ⟨kept, too⟩ := Db.mem_jobsOf.mp other
    exact Db.eq_of_cell stored kept (mine.trans too.symm) same

end Builders

/-- The dicts that a run's context and its outputs are made of have each key once. -/
structure WellKeyed (context : Dict) (rows : List NodeJob) : Prop where
  entries : ∀ name fields, Dict.get? context name = some (.obj fields) → (Dict.keys fields).Nodup
  outputs : ∀ job ∈ rows, ∀ delta, job.contextDelta = .obj delta → (Dict.keys delta).Nodup

/-- **One context for all refs.** Without an output directory every expression has the same
value, up to the order of keys, or the same kind of error in the skip context and in the ref
context exactly where each output reads alike. -/
theorem one_context_iff {py : Python} {host : Host} {db : Db} {run : RunRow}
    (bare : nonEmpty run.outDir = none) (keyed : WellKeyed run.context (db.jobsOf run.id)) :
    (∃ context, Dispatcher.refContext host run (db.jobsOf run.id) = .ok context ∧
      ∀ value, AgreeOn Reordered
        (Refs.evaluate py (Dispatcher.evalSkipContext run (db.jobsOf run.id)) value)
        (Refs.evaluate py context value)) ↔
      ReadAlike run.context (db.jobsOf run.id) := by
  have built : Dispatcher.refContext host run (db.jobsOf run.id) =
      .ok (Dispatcher.mergeSiblings run.context (db.jobsOf run.id)) := by
    simp [Dispatcher.refContext, bare]
  rw [built, ← matching_iff nodup_nodeIds keyed.entries keyed.outputs,
    ← @Refs.evaluate_agrees_iff py]
  constructor
  · rintro ⟨context, ⟨⟩, agrees⟩
    exact agrees
  · exact fun agrees => ⟨_, rfl, agrees⟩

/-! ### An entry that an output does not cover -/

/-- A run whose context has an entry under the name of its node, and the node's output. -/
def Sample.recalled (context : Dict) : RunRow where
  id := "r"
  workflowName := "w"
  context := context

def Sample.answeredAsk (delta : Dict) : NodeJob where
  id := 0
  runId := "r"
  nodeId := "ask"
  nodeModule := "__input__text"
  queue := .cpu
  status := .completed
  contextDelta := .obj delta
  createdAt := 0

def Sample.answeredStore (delta : Dict) : Db :=
  { Db.empty with jobs := ⟨[Sample.answeredAsk delta], List.pairwise_singleton _ _⟩ }

theorem jobsOf_answeredStore (delta : Dict) :
    (Sample.answeredStore delta).jobsOf "r" = [Sample.answeredAsk delta] := rfl

theorem answeredStore_keyed {context delta : Dict}
    (entries : ∀ name fields, Dict.get? context name = some (.obj fields) →
      (Dict.keys fields).Nodup) (output : (Dict.keys delta).Nodup) :
    WellKeyed context ((Sample.answeredStore delta).jobsOf "r") := by
  refine ⟨entries, fun job member fields same => ?_⟩
  rw [jobsOf_answeredStore, List.mem_singleton] at member
  subst member
  cases same
  exact output

/-- `$from: ask.draft` is missing for `skip_if`, and resolves for an input. -/
theorem contexts_disagree : ¬ ∀ (py : Python) (host : Host) (db : Db) (run : RunRow),
    nonEmpty run.outDir = none → WellKeyed run.context (db.jobsOf run.id) →
    ∃ context, Dispatcher.refContext host run (db.jobsOf run.id) = .ok context ∧
      ∀ value, AgreeOn Reordered
        (Refs.evaluate py (Dispatcher.evalSkipContext run (db.jobsOf run.id)) value)
        (Refs.evaluate py context value) := by
  intro agrees
  have keyed : WellKeyed [("ask", .obj [("draft", .str "maybe")])]
      ((Sample.answeredStore [("answer", .str "yes")]).jobsOf "r") := by
    refine answeredStore_keyed (fun name fields found => ?_) (by decide)
    rw [Dict.get?_cons] at found
    split at found
    · cases found
      decide
    · cases found
  obtain ⟨context, built, agree⟩ := agrees Sample.python Sample.host
    (Sample.answeredStore [("answer", .str "yes")])
    (Sample.recalled [("ask", .obj [("draft", .str "maybe")])]) rfl keyed
  cases built
  exact agree (.obj [("$from", .str "ask.draft")])

/-- Without that entry the two contexts agree. -/
theorem contexts_agree : ∃ context,
    Dispatcher.refContext Sample.host (Sample.recalled [])
      ((Sample.answeredStore [("answer", .str "yes")]).jobsOf "r") = .ok context ∧
    ∀ value, AgreeOn Reordered
      (Refs.evaluate Sample.python (Dispatcher.evalSkipContext (Sample.recalled [])
        ((Sample.answeredStore [("answer", .str "yes")]).jobsOf "r")) value)
      (Refs.evaluate Sample.python context value) := by
  refine (one_context_iff rfl (answeredStore_keyed (fun _ _ none => by cases none) (by decide))).mpr
    ⟨fun job _ _ _ _ old _ none => (by cases none), fun job member gives _ out => ?_⟩
  have listed : job ∈ [Sample.answeredAsk [("answer", .str "yes")]] := member
  have merged : job ∈ mergedRows [] [Sample.answeredAsk [("answer", .str "yes")]] := listed
  obtain rfl := List.mem_singleton.mp listed
  exact absurd (out merged) (by decide)

end QueueWorkflows
