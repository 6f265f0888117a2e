import Mathlib.Data.Finite.Defs
import Mathlib.Data.Set.Finite.List
import Mathlib.Logic.Relation
import Mathlib.Order.WellFounded
import Mathlib.Order.RelClasses

/-! Acyclic relations on finitely many vertices: there is a first one in every
collection, every vertex comes after a source and before a sink, and a graph of
graphs is acyclic when the outer and all inner ones are. -/

namespace Graph

open Relation (TransGen ReflTransGen)

universe u v

variable {α : Type u} {β : Type v} {before : α → α → Prop} {vertices : List α}

/-- No vertex comes before itself. -/
def Acyclic (before : α → α → Prop) : Prop :=
  ∀ vertex, ¬ TransGen before vertex vertex

theorem Acyclic.swap (acyclic : Acyclic before) : Acyclic (Function.swap before) :=
  fun vertex cycle => acyclic vertex (Relation.transGen_swap.mp cycle)

/-- A rank that grows along every edge. -/
theorem acyclic_of_rank (rank : α → Nat)
    (grows : ∀ first second, before first second → rank first < rank second) : Acyclic before := by
  intro vertex cycle
  have above : ∀ last, TransGen before vertex last → rank vertex < rank last := by
    intro last path
    induction path with
    | single edge => exact grows _ _ edge
    | tail _ edge ih => exact ih.trans (grows _ _ edge)
  exact Nat.lt_irrefl _ (above vertex cycle)

theorem Acyclic.exists_first (acyclic : Acyclic before) (nonempty : vertices ≠ []) :
    ∃ first ∈ vertices, ∀ other ∈ vertices, ¬ before other first := by
  let earlier : { vertex // vertex ∈ vertices } → { vertex // vertex ∈ vertices } → Prop :=
    fun first second => TransGen before first.1 second.1
  have finite : Finite { vertex // vertex ∈ vertices } := (List.finite_toSet vertices).to_subtype
  have transitive : IsTrans _ earlier := ⟨fun _ _ _ => TransGen.trans⟩
  have irreflexive : Std.Irrefl earlier := ⟨fun vertex => acyclic vertex.1⟩
  have founded : WellFounded earlier := Finite.wellFounded_of_trans_of_irrefl earlier
  obtain ⟨some, present⟩ := List.exists_mem_of_ne_nil _ nonempty
  obtain ⟨first, -, least⟩ := founded.has_min Set.univ ⟨⟨some, present⟩, trivial⟩
  refine ⟨first.1, first.2, fun other member edge => ?_⟩
  exact least ⟨other, member⟩ trivial (.single edge)

/-- Going backwards from a vertex ends at one that nothing comes before. -/
theorem Acyclic.exists_source (acyclic : Acyclic before)
    (closed : ∀ first second, before first second → first ∈ vertices) (vertex : α) :
    ∃ source, ReflTransGen before source vertex ∧ ∀ other, ¬ before other source := by
  classical
  let behind := vertices.filter fun other => ReflTransGen before other vertex
  by_cases alone : behind = []
  · refine ⟨vertex, .refl, fun other edge => ?_⟩
    have listed : other ∈ behind :=
      List.mem_filter.mpr ⟨closed _ _ edge, decide_eq_true (ReflTransGen.single edge)⟩
    exact List.ne_nil_of_mem listed alone
  · obtain ⟨source, member, least⟩ := acyclic.exists_first alone
    have reaches : ReflTransGen before source vertex :=
      of_decide_eq_true (List.mem_filter.mp member).2
    refine ⟨source, reaches, fun other edge => least other ?_ edge⟩
    exact List.mem_filter.mpr ⟨closed _ _ edge, decide_eq_true (reaches.head edge)⟩

/-- Going forwards from a vertex ends at one that comes before nothing. -/
theorem Acyclic.exists_sink (acyclic : Acyclic before)
    (closed : ∀ first second, before first second → second ∈ vertices) (vertex : α) :
    ∃ sink, ReflTransGen before vertex sink ∧ ∀ other, ¬ before sink other := by
  obtain ⟨sink, path, least⟩ := acyclic.swap.exists_source (fun _ _ edge => closed _ _ edge) vertex
  exact ⟨sink, Relation.reflTransGen_swap.mp path, least⟩

/-- The image of a graph, no two vertices of which are taken to one. -/
theorem Acyclic.map {rename : α → β} (acyclic : Acyclic before)
    (injective : Function.Injective rename) : Acyclic (Relation.Map before rename rename) := by
  have paths : ∀ first last, TransGen (Relation.Map before rename rename) first last →
      ∃ start stop, rename start = first ∧ rename stop = last ∧ TransGen before start stop := by
    intro first last path
    induction path with
    | single edge =>
      obtain ⟨start, stop, step, left, right⟩ := edge
      exact ⟨start, stop, left, right, .single step⟩
    | tail _ edge ih =>
      obtain ⟨start, middle, left, between, path⟩ := ih
      obtain ⟨other, stop, step, same, right⟩ := edge
      cases injective (same.trans between.symm)
      exact ⟨start, stop, left, right, path.tail step⟩
  intro vertex cycle
  obtain ⟨start, stop, left, right, round⟩ := paths vertex vertex cycle
  cases injective (left.trans right.symm)
  exact acyclic start round

/-- A graph of graphs: every edge goes forward in the outer graph, or stays at one of
its places and is an edge of the graph there. -/
theorem Acyclic.nested {outer : β → β → Prop} {inner : β → α → α → Prop} (place : α → β)
    (acyclic : Acyclic outer) (within : ∀ spot, Acyclic (inner spot))
    (edges : ∀ first second, before first second → outer (place first) (place second) ∨
      place first = place second ∧ inner (place first) first second) : Acyclic before := by
  have paths : ∀ first last, TransGen before first last →
      TransGen outer (place first) (place last) ∨
        place first = place last ∧ TransGen (inner (place first)) first last := by
    intro first last path
    induction path with
    | single edge =>
      exact (edges _ _ edge).imp .single fun stays => ⟨stays.1, .single stays.2⟩
    | tail _ edge ih =>
      rcases ih with ahead | ⟨same, path⟩
      · rcases edges _ _ edge with further | ⟨level, -⟩
        · exact .inl (ahead.tail further)
        · exact .inl (level ▸ ahead)
      · rcases edges _ _ edge with further | ⟨level, step⟩
        · exact .inl (.single (same ▸ further))
        · exact .inr ⟨same.trans level, path.tail (same ▸ step)⟩
  intro vertex cycle
  rcases paths vertex vertex cycle with ahead | ⟨-, round⟩
  · exact acyclic _ ahead
  · exact within _ vertex round

end Graph
