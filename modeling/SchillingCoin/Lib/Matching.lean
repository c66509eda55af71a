import Mathlib.Data.List.Forall2
import Mathlib.Data.List.NodupEquivFin

/-!
Order-preserving matchings of one list into another: every element of the first is related to an element of the second, in the
order of both. Taking the first related element is never wrong.
-/

namespace Matching

variable {α β : Type*} {R : α → β → Prop} {a : α} {b : β} {as : List α} {bs : List β}

open List (SublistForall₂ Forall₂)

theorem length_le (h : SublistForall₂ R as bs) : as.length ≤ bs.length := by
  obtain ⟨taken, related, sub⟩ := List.sublistForall₂_iff.mp h
  rw [related.length_eq]
  exact sub.length_le

theorem tail (h : SublistForall₂ R (a :: as) bs) : SublistForall₂ R as bs := by
  induction bs with
  | nil => cases h
  | cons b bs ih =>
    cases h with
    | cons _ rest => exact rest.cons_right
    | cons_right rest => exact (ih rest).cons_right

theorem cons_iff_of_related (related : R a b) : SublistForall₂ R (a :: as) (b :: bs) ↔ SublistForall₂ R as bs := by
  constructor
  · intro h
    cases h with
    | cons _ rest => exact rest
    | cons_right rest => exact tail rest
  · intro h
    exact h.cons related

theorem cons_iff_of_unrelated (unrelated : ¬R a b) : SublistForall₂ R (a :: as) (b :: bs) ↔ SublistForall₂ R (a :: as) bs := by
  constructor
  · intro h
    cases h with
    | cons related _ => exact absurd related unrelated
    | cons_right rest => exact rest
  · intro h
    exact h.cons_right

theorem reverse_of (h : SublistForall₂ R as bs) : SublistForall₂ R as.reverse bs.reverse := by
  obtain ⟨taken, related, sub⟩ := List.sublistForall₂_iff.mp h
  exact List.sublistForall₂_iff.mpr ⟨taken.reverse, List.rel_reverse related, sub.reverse⟩

theorem reverse_iff : SublistForall₂ R as.reverse bs.reverse ↔ SublistForall₂ R as bs := by
  constructor
  · intro h
    simpa using reverse_of h
  · exact reverse_of

theorem iff_exists_strictMono :
    SublistForall₂ R as bs ↔ ∃ f : Fin as.length → Fin bs.length, StrictMono f ∧ ∀ i, R (as.get i) (bs.get (f i)) := by
  rw [List.sublistForall₂_iff]
  constructor
  · rintro ⟨taken, related, sub⟩
    obtain ⟨f, same⟩ := List.sublist_iff_exists_fin_orderEmbedding_get_eq.mp sub
    obtain ⟨size, related⟩ := List.forall₂_iff_get.mp related
    refine ⟨fun i => f (i.cast size), fun i j less => f.strictMono less, fun i => ?_⟩
    rw [← same]
    exact related i i.isLt (size ▸ i.isLt)
  · rintro ⟨f, increasing, related⟩
    refine ⟨List.ofFn fun i => bs.get (f i), List.forall₂_iff_get.mpr ⟨by simp, ?_⟩, ?_⟩
    · intro i first second
      simpa using related ⟨i, first⟩
    · apply List.sublist_iff_exists_fin_orderEmbedding_get_eq.mpr
      refine ⟨OrderEmbedding.ofStrictMono (fun i => f (i.cast (by simp))) fun i j less => increasing less, fun i => ?_⟩
      simp only [List.get_ofFn]
      rfl

end Matching
