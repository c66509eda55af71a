import Mathlib.Data.List.GetD
import Mathlib.Data.List.Sort

/-!
The middle element of a list by its order.
-/

namespace Median

variable {α : Type} [LinearOrder α]

/-- Of an even number of elements the upper one in the middle. -/
def median (l : List α) (d : α) : α := (l.insertionSort (· ≤ ·)).getD (l.length / 2) d

theorem getD_le_iff {s : List α} (sorted : s.Pairwise (· ≤ ·)) (inside : k < s.length) :
    s.getD k d ≤ x ↔ k < s.countP (· ≤ x) := by
  induction s generalizing k with
  | nil => cases inside
  | cons a s ih =>
    obtain ⟨least, sorted⟩ := List.pairwise_cons.mp sorted
    by_cases low : a ≤ x
    · rw [List.countP_cons_of_pos (by simpa using low)]
      cases k with
      | zero => simpa using low
      | succ k =>
        rw [List.getD_cons_succ, ih sorted (Nat.lt_of_succ_lt_succ inside)]
        omega
    · -- nothing after an element above `x` is at most `x`
      have none : (a :: s).countP (· ≤ x) = 0 := by
        rw [List.countP_eq_zero]
        intro y member
        rcases List.mem_cons.mp member with rfl | later
        · simpa using low
        · simpa using lt_of_lt_of_le (not_le.mp low) (least y later)
      rw [none]
      have above : x < (a :: s).getD k d := by
        rw [List.getD_eq_getElem _ _ inside]
        rcases List.mem_cons.mp (List.getElem_mem inside) with same | later
        · rw [same]
          exact not_le.mp low
        · exact lt_of_lt_of_le (not_le.mp low) (least _ later)
      simpa using above

theorem median_le_iff {l : List α} (nonempty : 0 < l.length) : median l d ≤ x ↔ l.length / 2 < l.countP (· ≤ x) := by
  have perm := List.perm_insertionSort (· ≤ ·) l
  unfold median
  rw [getD_le_iff (List.pairwise_insertionSort (· ≤ ·) l) (by rw [perm.length_eq]; omega), perm.countP_eq]

theorem median_window_cons {l : List α} (nonempty : 0 < l.length) (above : median (l.take (2 * n + 1)) d ≤ x) :
    median ((x :: l).take (2 * n + 1)) d ≤ x := by
  have before : (l.take (2 * n + 1)).length / 2 < (l.take (2 * n + 1)).countP (· ≤ x) :=
    (median_le_iff (by rw [List.length_take]; omega)).mp above
  have next : (x :: l).take (2 * n + 1) = x :: l.take (2 * n) := rfl
  rw [next, median_le_iff (by simp), List.countP_cons_of_pos (by simp), List.length_cons]
  by_cases short : l.length ≤ 2 * n
  · rw [List.take_of_length_le short]
    rw [List.take_of_length_le (by omega)] at before
    omega
  · have split : l.take (2 * n + 1) = l.take (2 * n) ++ (l.drop (2 * n)).take 1 := List.take_add
    have dropped : ((l.drop (2 * n)).take 1).countP (· ≤ x) ≤ 1 := by
      have atMost := List.countP_le_length (p := (· ≤ x)) (l := (l.drop (2 * n)).take 1)
      rw [List.length_take] at atMost
      omega
    rw [split, List.countP_append, List.length_append, List.length_take, List.length_take, List.length_drop] at before
    rw [List.length_take]
    omega

end Median
