import Mathlib.Order.CompletePartialOrder
import Mathlib.Order.Interval.Set.Disjoint

/-!
Ranges of files that are handed out one after the other, each from where the space already used in its file ends.
-/

universe u

structure Extent (κ : Type u) where
  file : κ
  start : Nat
  stop : Nat
  deriving DecidableEq, Repr

namespace Extent

variable {κ : Type u}

def Apart (e e' : Extent κ) : Prop := e.file = e'.file → Disjoint (Set.Ico e.start e.stop) (Set.Ico e'.start e'.stop)

structure Tight (used : κ → Nat) (given : List (Extent κ)) : Prop where
  apart : given.Pairwise Apart
  below : ∀ e ∈ given, e.stop ≤ used e.file

theorem Tight.nil (used : κ → Nat) : Tight used [] := ⟨.nil, nofun⟩

theorem Tight.extend (tight : Tight used given) (grown : ∀ file, used file ≤ used' file) {file : κ}
    (counted : used file + size ≤ used' file) :
    Tight used' (given ++ [⟨file, used file, used file + size⟩]) where
  apart := by
    apply List.pairwise_append.mpr
    refine ⟨tight.apart, List.pairwise_singleton _ _, ?_⟩
    intro e member e' new
    obtain rfl := List.mem_singleton.mp new
    intro same
    apply Set.disjoint_left.mpr
    intro byte inside inside'
    have before := tight.below e member
    have start : used e.file ≤ byte := same ▸ inside'.1
    exact absurd inside.2 (not_lt.mpr (before.trans start))
  below := by
    intro e member
    rcases List.mem_append.mp member with old | new
    · exact (tight.below e old).trans (grown e.file)
    · obtain rfl := List.mem_singleton.mp new
      exact counted

end Extent
