import Mathlib.Data.List.Infix
import Mathlib.Data.List.Nodup

/-! A log of keys that are flagged, and of beginnings that start an episode of a key
afresh. A key should be flagged once in an episode. -/

namespace Episodes

universe u

inductive Notice (κ : Type u) where
  | begins (key : κ)
  | flagged (key : κ)
deriving DecidableEq

variable {κ : Type u} {log : List (Notice κ)} {notice : Notice κ} {key : κ} {keys : List κ}

/-- The key has been flagged since its last beginning. -/
def Raised (key : κ) (log : List (Notice κ)) : Prop :=
  ∃ stretch, stretch <:+ log ∧ .begins key ∉ stretch ∧ .flagged key ∈ stretch

/-- Over a stretch without a beginning, a key is flagged at most once. -/
def Once [DecidableEq κ] (log : List (Notice κ)) : Prop :=
  ∀ key stretch, stretch <:+: log → .begins key ∉ stretch → stretch.count (.flagged key) ≤ 1

theorem raised_snoc : Raised key (log ++ [notice]) ↔
    notice ≠ .begins key ∧ (notice = .flagged key ∨ Raised key log) := by
  constructor
  · rintro ⟨stretch, suffix, quiet, flagged⟩
    rcases List.suffix_concat_iff.mp suffix with rfl | ⟨early, rfl, before⟩
    · cases flagged
    · rw [List.mem_append, List.mem_singleton] at quiet flagged
      push Not at quiet
      refine ⟨quiet.2.symm, ?_⟩
      rcases flagged with inside | same
      · exact .inr ⟨early, before, quiet.1, inside⟩
      · exact .inl same.symm
  · rintro ⟨goesOn, rfl | ⟨early, before, quiet, inside⟩⟩
    · exact ⟨[.flagged key], List.suffix_append _ _, by simp, by simp⟩
    · refine ⟨early ++ [notice], List.suffix_concat_iff.mpr (.inr ⟨early, rfl, before⟩), ?_, ?_⟩
      · simpa [quiet] using goesOn.symm
      · simp [inside]

theorem raised_flagged : Raised key (log ++ keys.map .flagged) ↔ key ∈ keys ∨ Raised key log := by
  induction keys using List.reverseRecOn with
  | nil => simp
  | append_singleton keys last ih =>
    rw [List.map_append, ← List.append_assoc, List.map_singleton, raised_snoc, ih]
    simp only [ne_eq, reduceCtorEq, not_false_iff, true_and, Notice.flagged.injEq, List.mem_append,
      List.mem_singleton]
    rw [eq_comm]
    tauto

variable [DecidableEq κ]

theorem once_nil : Once ([] : List (Notice κ)) := by
  intro key stretch inside _
  rw [List.infix_nil.mp inside]
  simp

/-- One more notice is one too many if the key has been flagged in its episode. -/
theorem once_snoc : Once (log ++ [notice]) ↔
    Once log ∧ ∀ key, notice = .flagged key → ¬ Raised key log := by
  constructor
  · intro once
    refine ⟨fun key stretch inside => once key stretch (inside.trans (List.prefix_append _ _).isInfix),
      ?_⟩
    rintro key rfl ⟨stretch, suffix, quiet, flagged⟩
    have twice := once key (stretch ++ [.flagged key])
      (List.suffix_concat_iff.mpr (.inr ⟨stretch, rfl, suffix⟩)).isInfix (by simpa using quiet)
    have some' := List.count_pos_iff.mpr flagged
    rw [List.count_append, List.count_singleton_self] at twice
    omega
  · rintro ⟨once, apart⟩ key stretch inside quiet
    rcases List.infix_concat_iff.mp inside with suffix | before
    · rcases List.suffix_concat_iff.mp suffix with rfl | ⟨early, rfl, before⟩
      · simp
      · rw [List.mem_append] at quiet
        push Not at quiet
        have few := once key early before.isInfix quiet.1
        rw [List.count_append]
        by_cases same : notice = .flagged key
        · have none : early.count (.flagged key) = 0 := by
            rw [List.count_eq_zero]
            exact fun flagged => apart key same ⟨early, before, quiet.1, flagged⟩
          rw [none, same, List.count_singleton_self]
        · rw [List.count_singleton, if_neg (by simpa using same)]
          exact few
    · exact once key stretch before quiet

theorem once_begins : Once (log ++ [.begins key]) ↔ Once log := by
  simp [once_snoc]

/-- Several keys at once. -/
theorem once_flagged : Once (log ++ keys.map .flagged) ↔
    Once log ∧ keys.Nodup ∧ ∀ key ∈ keys, ¬ Raised key log := by
  induction keys using List.reverseRecOn with
  | nil => simp
  | append_singleton keys last ih =>
    rw [List.map_append, ← List.append_assoc, List.map_singleton, once_snoc, ih]
    simp only [Notice.flagged.injEq, forall_eq', raised_flagged, not_or, List.nodup_append,
      List.mem_append, List.mem_singleton]
    constructor
    · rintro ⟨⟨once, distinct, apart⟩, fresh, unflagged⟩
      refine ⟨once, ⟨distinct, by simp, ?_⟩, ?_⟩
      · rintro key listed _ rfl rfl
        exact fresh listed
      · rintro key (listed | rfl)
        · exact apart key listed
        · exact unflagged
    · rintro ⟨once, ⟨distinct, -, fresh⟩, apart⟩
      refine ⟨⟨once, distinct, fun key listed => apart key (.inl listed)⟩, ?_, apart last (.inr rfl)⟩
      exact fun listed => fresh last listed last rfl rfl

end Episodes
