/-
# The first of the best

A seat is kept by its holder until a strictly better challenger comes. After any
number of challenges it is held by the first of the best, be it the holder or a
challenger. When challengers of one rank are the same, the order in which they come
makes no difference.
-/

import Mathlib.Data.List.MinMax
import Mathlib.Order.Bounds.Basic

namespace Redloop

variable {α σ : Type} [LinearOrder σ] {rank : α → σ}

/-- A holder that no challenger beats stays. -/
theorem argmin_cons_of_le {holder : α} {challengers : List α}
    (hle : ∀ challenger ∈ challengers, rank holder ≤ rank challenger) :
    List.argmin rank (holder :: challengers) = some holder := by
  rw [List.argmin_cons]
  cases hbest : List.argmin rank challengers with
  | none => rfl
  | some best => exact if_neg (hle best (List.argmin_mem hbest)).not_gt

/-- Challengers of one rank being the same, the best of them does not depend on their order. -/
theorem argmin_eq_of_perm {first second : List α} (hperm : first.Perm second)
    (hties : ∀ a ∈ first, ∀ b ∈ first, rank a = rank b → a = b) :
    List.argmin rank first = List.argmin rank second := by
  cases hfirst : List.argmin rank first with
  | none =>
      obtain rfl := List.argmin_eq_none.mp hfirst
      rw [← hperm.nil_eq]
      rfl
  | some best =>
      cases hsecond : List.argmin rank second with
      | none =>
          obtain rfl := List.argmin_eq_none.mp hsecond
          cases List.not_mem_nil (hperm.subset (List.argmin_mem hfirst))
      | some other =>
          have hbest := List.argmin_mem hfirst
          have hother := hperm.symm.subset (List.argmin_mem hsecond)
          apply congrArg some
          apply hties best hbest other hother
          exact le_antisymm (List.le_of_mem_argmin hother hfirst)
            (List.le_of_mem_argmin (hperm.subset hbest) hsecond)

/-- The holder of a seat does not depend on the order of its challengers. -/
theorem argmin_append_eq_of_perm (rank : α → σ) (holder : Option α) {first second : List α}
    (hperm : first.Perm second)
    (hties : ∀ a ∈ first, ∀ b ∈ first, rank a = rank b → a = b) :
    List.argmin rank (holder.toList ++ first) = List.argmin rank (holder.toList ++ second) := by
  cases holder with
  | none => exact argmin_eq_of_perm hperm hties
  | some holder =>
      show List.argmin rank (holder :: first) = List.argmin rank (holder :: second)
      rw [List.argmin_cons, List.argmin_cons, argmin_eq_of_perm hperm hties]

/-- A member of a set that no member beats. -/
def IsBest (rank : α → σ) (candidates : Set α) (best : α) : Prop :=
  best ∈ candidates ∧ ∀ candidate ∈ candidates, rank best ≤ rank candidate

theorem isBest_id_iff {candidates : Set σ} {best : σ} :
    IsBest id candidates best ↔ IsLeast candidates best := Iff.rfl

theorem isBest_toDual_iff {candidates : Set σ} {best : σ} :
    IsBest OrderDual.toDual candidates best ↔ IsGreatest candidates best := Iff.rfl

/-- The values of the members of a list have a best one. -/
theorem exists_isBest {β : Type} (rank : β → σ) (value : α → β) {members : List α}
    (hne : members ≠ []) :
    ∃ best, IsBest rank {x | ∃ member ∈ members, value member = x} best := by
  cases hbest : List.argmin (fun member => rank (value member)) members with
  | none => exact absurd (List.argmin_eq_none.mp hbest) hne
  | some best =>
      refine ⟨value best, ⟨best, List.argmin_mem hbest, rfl⟩, ?_⟩
      rintro _ ⟨member, hmem, rfl⟩
      have hle := List.le_of_mem_argmin hmem hbest
      exact hle

/-- Ranks being different, there is one best. -/
theorem IsBest.unique (hrank : Function.Injective rank) {candidates : Set α} {best other : α}
    (hbest : IsBest rank candidates best) (hother : IsBest rank candidates other) :
    best = other :=
  hrank (le_antisymm (hbest.2 other hother.1) (hother.2 best hbest.1))

/-- The best of a holder that may be there and of one set is the best of that holder and
another set exactly when the two sets have one best, or the holder is as good as both. -/
theorem isBest_union_iff (hrank : Function.Injective rank) {holder : Option α}
    {first second : Set α} {best other result : α} (hbest : IsBest rank first best)
    (hother : IsBest rank second other)
    (hresult : IsBest rank ({x | x ∈ holder} ∪ second) result) :
    IsBest rank ({x | x ∈ holder} ∪ first) result ↔
      other = best ∨ ∃ x ∈ holder, rank x ≤ rank other ∧ rank x ≤ rank best := by
  constructor
  · rintro ⟨hmem, hleast⟩
    by_cases hheld : result ∈ holder
    · exact Or.inr ⟨result, hheld, hresult.2 _ (Or.inr hother.1), hleast _ (Or.inr hbest.1)⟩
    · left
      apply hrank (le_antisymm ?_ ?_)
      · exact (hother.2 _ (hresult.1.resolve_left hheld)).trans (hleast _ (Or.inr hbest.1))
      · exact (hbest.2 _ (hmem.resolve_left hheld)).trans (hresult.2 _ (Or.inr hother.1))
  · intro hsame
    have hle : rank result ≤ rank best := by
      rcases hsame with rfl | ⟨x, hheld, _, hle⟩
      · exact hresult.2 _ (Or.inr hother.1)
      · exact (hresult.2 _ (Or.inl hheld)).trans hle
    constructor
    · rcases hresult.1 with hheld | hsecond
      · exact Or.inl hheld
      · rcases hsame with rfl | ⟨x, hheld, hless, _⟩
        · right
          rw [hrank (le_antisymm hle (hother.2 _ hsecond))]
          exact hbest.1
        · left
          have hsandwich : result = x :=
            hrank (le_antisymm (hresult.2 _ (Or.inl hheld)) (hless.trans (hother.2 _ hsecond)))
          rwa [hsandwich]
    · rintro x (hheld | hfirst)
      · exact hresult.2 _ (Or.inl hheld)
      · exact hle.trans (hbest.2 _ hfirst)

end Redloop
