import Mathlib.Algebra.Ring.Int.Defs
import Mathlib.Algebra.Order.Group.Int
import Mathlib.Algebra.BigOperators.Group.List.Basic

/-!
Greedy allocation: the elements of a list in turn, each when its amount still fits under a limit.
-/

namespace SchillingCoin

variable {α : Type*}

/-- The elements that are taken when some of the limit is used already. -/
def greedy (amount : α → Int) (limit : Int) : Int → List α → List α
  | _, [] => []
  | used, a :: l => if amount a + used ≤ limit then a :: greedy amount limit (amount a + used) l else greedy amount limit used l

namespace Greedy

variable (amount : α → Int) (limit : Int)

def spent (l : List α) : Int := (l.map amount).sum

@[simp] theorem spent_nil : spent amount ([] : List α) = 0 := rfl

@[simp] theorem spent_cons (a : α) (l : List α) : spent amount (a :: l) = amount a + spent amount l := by
  simp [spent]

theorem greedy_append (used : Int) (l l' : List α) :
    greedy amount limit used (l ++ l') =
      greedy amount limit used l ++ greedy amount limit (used + spent amount (greedy amount limit used l)) l' := by
  induction l generalizing used with
  | nil => simp [greedy]
  | cons a l ih =>
    rw [List.cons_append, greedy, greedy]
    split
    · rw [ih, List.cons_append, spent_cons]
      have sum : amount a + used + spent amount (greedy amount limit (amount a + used) l) =
          used + (amount a + spent amount (greedy amount limit (amount a + used) l)) := by omega
      rw [sum]
    · exact ih used

theorem greedy_sublist (used : Int) (l : List α) : (greedy amount limit used l).Sublist l := by
  induction l generalizing used with
  | nil => exact List.Sublist.slnil
  | cons a l ih =>
    rw [greedy]
    split
    · exact (ih _).cons_cons a
    · exact (ih used).cons a

variable {amount limit}

theorem spent_le (room : used ≤ limit) (l : List α) : used + spent amount (greedy amount limit used l) ≤ limit := by
  induction l generalizing used with
  | nil => simpa [greedy] using room
  | cons a l ih =>
    rw [greedy]
    split
    · next fits =>
      have rest := ih fits
      rw [spent_cons]
      omega
    · exact ih room

theorem greedy_at (used : Int) (before : List α) (a : α) (after : List α) :
    ∃ rest, rest.Sublist after ∧
      (greedy amount limit used (before ++ a :: after) = greedy amount limit used before ++ a :: rest ∨
      (greedy amount limit used (before ++ a :: after) = greedy amount limit used before ++ rest ∧
        limit < amount a + (used + spent amount (greedy amount limit used before)))) := by
  rw [greedy_append, greedy]
  split
  · exact ⟨_, greedy_sublist amount limit _ after, Or.inl rfl⟩
  · next exceeds => exact ⟨_, greedy_sublist amount limit _ after, Or.inr ⟨rfl, Int.not_le.mp exceeds⟩⟩

end Greedy

end SchillingCoin
