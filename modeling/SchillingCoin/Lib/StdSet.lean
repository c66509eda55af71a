import Mathlib.Data.List.Lex
import Mathlib.Data.List.Sort

/-!
Finite sets in the order of their elements, as `std::set` holds them. Sets are ordered as lists, so sets of sets are sets again.
-/

universe u

structure StdSet (α : Type u) [LinearOrder α] where
  toList : List α
  sorted : toList.Pairwise (· < ·)

namespace StdSet

variable {α : Type u} [LinearOrder α]

instance : Membership α (StdSet α) := ⟨fun s a => a ∈ s.toList⟩

instance : EmptyCollection (StdSet α) := ⟨⟨[], .nil⟩⟩

theorem toList_injective : Function.Injective (toList (α := α)) := by
  intro s t same
  cases s
  cases t
  obtain rfl := same
  rfl

/-- `lexicographical_compare`. -/
instance : LinearOrder (StdSet α) := LinearOrder.lift' toList toList_injective

instance (a : α) (s : StdSet α) : Decidable (a ∈ s) := inferInstanceAs (Decidable (a ∈ s.toList))

variable {s : StdSet α} {a b : α} {l : List α}

theorem mem_toList : a ∈ s.toList ↔ a ∈ s := Iff.rfl

theorem notMem_empty (a : α) : a ∉ (∅ : StdSet α) := List.not_mem_nil

theorem nodup (s : StdSet α) : s.toList.Nodup := s.sorted.imp ne_of_lt

theorem ext (same : ∀ a, a ∈ s ↔ a ∈ t) : s = t :=
  toList_injective (s.sorted.eq_of_mem_iff t.sorted same)

def insertSorted (a : α) : List α → List α
  | [] => [a]
  | b :: l => if a < b then a :: b :: l else if a = b then b :: l else b :: insertSorted a l

theorem mem_insertSorted : b ∈ insertSorted a l ↔ b = a ∨ b ∈ l := by
  induction l with
  | nil => simp [insertSorted]
  | cons c l ih =>
    unfold insertSorted
    split
    · exact List.mem_cons
    · split
      · next same => simp [same]
      · rw [List.mem_cons, ih, List.mem_cons]
        exact or_left_comm

theorem sorted_insertSorted (sorted : l.Pairwise (· < ·)) : (insertSorted a l).Pairwise (· < ·) := by
  induction l with
  | nil => exact List.pairwise_singleton _ _
  | cons b l ih =>
    obtain ⟨first, rest⟩ := List.pairwise_cons.mp sorted
    unfold insertSorted
    split
    · next less =>
      apply List.pairwise_cons.mpr
      refine ⟨?_, sorted⟩
      intro c member
      rcases List.mem_cons.mp member with rfl | member
      · exact less
      · exact less.trans (first c member)
    · next notLess =>
      split
      · exact sorted
      · next different =>
        apply List.pairwise_cons.mpr
        refine ⟨?_, ih rest⟩
        intro c member
        rcases mem_insertSorted.mp member with rfl | member
        · exact lt_of_le_of_ne (le_of_not_gt notLess) (Ne.symm different)
        · exact first c member

def insert (s : StdSet α) (a : α) : StdSet α := ⟨insertSorted a s.toList, sorted_insertSorted s.sorted⟩

@[simp] theorem mem_insert : b ∈ s.insert a ↔ b = a ∨ b ∈ s := mem_insertSorted

def insertAll (s : StdSet α) (l : List α) : StdSet α := l.foldl insert s

@[simp] theorem mem_insertAll : b ∈ s.insertAll l ↔ b ∈ l ∨ b ∈ s := by
  induction l generalizing s with
  | nil => simp [insertAll]
  | cons a l ih =>
    have step : s.insertAll (a :: l) = (s.insert a).insertAll l := rfl
    rw [step, ih, mem_insert, List.mem_cons]
    exact or_left_comm.trans or_assoc.symm

def erase (s : StdSet α) (a : α) : StdSet α := ⟨s.toList.erase a, s.sorted.sublist List.erase_sublist⟩

@[simp] theorem mem_erase : b ∈ s.erase a ↔ b ≠ a ∧ b ∈ s := s.nodup.mem_erase_iff

end StdSet
