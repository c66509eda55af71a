import Mathlib.Data.Set.Lattice
import Mathlib.Tactic.Ring

/-!
Binary trees over a row of leaves.
-/

universe u

namespace PaddedTree

structure Row (α : Type u) where
  leaf : Nat → α
  size : Nat

namespace Row

variable {α : Type u} (pair : α → α → α)

/-- Node `i` of level `k`, over the leaves from `i * 2 ^ k` up to `(i + 1) * 2 ^ k`. -/
def node (row : Row α) : Nat → Nat → α
  | 0, i => row.leaf i
  | k + 1, i =>
    if (2 * i + 1) * 2 ^ k < row.size then pair (node row k (2 * i)) (node row k (2 * i + 1))
    else pair (node row k (2 * i)) (node row k (2 * i))

/-- What node `i` of level `k + 1` combines its left half with. -/
def right (row : Row α) (k i : Nat) : α :=
  if (2 * i + 1) * 2 ^ k < row.size then row.node pair k (2 * i + 1) else row.node pair k (2 * i)

theorem node_succ (row : Row α) (k i : Nat) :
    row.node pair (k + 1) i = pair (row.node pair k (2 * i)) (row.right pair k i) := by
  unfold right
  rw [node]
  split <;> rfl

variable {row : Row α} {k i j p top : Nat}

theorem node_full (inside : (2 * i + 1) * 2 ^ k < row.size) :
    row.node pair (k + 1) i = pair (row.node pair k (2 * i)) (row.node pair k (2 * i + 1)) := by
  rw [node, if_pos inside]

theorem node_repeated (outside : row.size ≤ (2 * i + 1) * 2 ^ k) :
    row.node pair (k + 1) i = pair (row.node pair k (2 * i)) (row.node pair k (2 * i)) := by
  rw [node, if_neg (Nat.not_lt.mpr outside)]

/-- Two halves that both end within the first `m` leaves are the same. -/
def Twins (row : Row α) (m : Nat) : Prop :=
  ∃ k i, (2 * i + 2) * 2 ^ k ≤ m ∧ row.node pair k (2 * i) = row.node pair k (2 * i + 1)

def combined (row : Row α) (height : Nat) : Set (α × α) :=
  { p | ∃ k i, k < height ∧ i * 2 ^ (k + 1) < row.size ∧ p = (row.node pair k (2 * i), row.right pair k i) }

/-- The leaves below two nodes of one level are the same, missing ones included. -/
def SameLeaves (row other : Row α) (k i j : Nat) : Prop :=
  ∀ t < 2 ^ k, (i * 2 ^ k + t < row.size ↔ j * 2 ^ k + t < other.size) ∧
    (i * 2 ^ k + t < row.size → row.leaf (i * 2 ^ k + t) = other.leaf (j * 2 ^ k + t))

theorem SameLeaves.join (left : SameLeaves row other k (2 * i) (2 * j)) (right : SameLeaves row other k (2 * i + 1) (2 * j + 1)) :
    SameLeaves row other (k + 1) i j := by
  intro t bound
  have width : 2 ^ (k + 1) = 2 * 2 ^ k := by ring
  have start : ∀ x, x * 2 ^ (k + 1) = 2 * x * 2 ^ k := fun x => by ring
  have next : ∀ x, (2 * x + 1) * 2 ^ k = 2 * x * 2 ^ k + 2 ^ k := fun x => by ring
  rw [start i, start j]
  by_cases half : t < 2 ^ k
  · exact left t half
  · obtain ⟨r, rfl⟩ : ∃ r, t = 2 ^ k + r := ⟨t - 2 ^ k, by omega⟩
    have here := right r (by omega)
    rw [next i, next j, Nat.add_assoc, Nat.add_assoc] at here
    exact here

theorem sameLeaves_outside (outside : row.size ≤ i * 2 ^ k) (outside' : other.size ≤ j * 2 ^ k) : SameLeaves row other k i j := by
  intro t _
  constructor
  · omega
  · omega

theorem SameLeaves.full (same : SameLeaves row row k (2 * i) (2 * i + 1))
    (inside : (2 * i + 1) * 2 ^ k < row.size) : (2 * i + 2) * 2 ^ k ≤ row.size := by
  have positive : 0 < 2 ^ k := Nat.two_pow_pos k
  have next : (2 * i + 1) * 2 ^ k = 2 * i * 2 ^ k + 2 ^ k := by ring
  have last : (2 * i + 2) * 2 ^ k = (2 * i + 1) * 2 ^ k + 2 ^ k := by ring
  have ends := (same (2 ^ k - 1) (by omega)).1.mp (by omega)
  omega

variable {pair}

/-- Without twins a tree shows its leaves: two nodes of one level that are the same have the same
leaves, when no two pairs that the trees combine collide. -/
theorem sameLeaves_of_node_eq (rows : Bool → Row α)
    (injective : Set.InjOn (Function.uncurry pair) (⋃ b, (rows b).combined pair height))
    (plain : ∀ b, ¬(rows b).Twins pair (rows b).size) (low : k ≤ height) (inside : i * 2 ^ k < (rows b).size)
    (inside' : j * 2 ^ k < (rows c).size) (same : (rows b).node pair k i = (rows c).node pair k j) :
    SameLeaves (rows b) (rows c) k i j := by
  induction k generalizing b c i j with
  | zero =>
    intro t bound
    obtain rfl : t = 0 := by omega
    simp only [Nat.pow_zero, Nat.mul_one, Nat.add_zero] at inside inside' ⊢
    exact ⟨by omega, fun _ => same⟩
  | succ k ih =>
    have start : ∀ x, x * 2 ^ (k + 1) = 2 * x * 2 ^ k := fun x => by ring
    rw [node_succ, node_succ] at same
    have halves := injective (Set.mem_iUnion.mpr ⟨b, k, i, low, inside, rfl⟩)
      (Set.mem_iUnion.mpr ⟨c, k, j, low, inside', rfl⟩) same
    obtain ⟨left, right⟩ := Prod.mk.inj halves
    rw [start] at inside inside'
    have lefts := ih (Nat.le_of_succ_le low) inside inside' left
    -- A half that repeats against one that does not would make twins of the other row.
    have noTwins : ∀ d x, (2 * x + 1) * 2 ^ k < (rows d).size →
        (rows d).node pair k (2 * x) ≠ (rows d).node pair k (2 * x + 1) := by
      intro d x bound twin
      have next : (2 * x + 1) * 2 ^ k = 2 * x * 2 ^ k + 2 ^ k := by ring
      have leaves := ih (Nat.le_of_succ_le low) (by have := Nat.two_pow_pos k; omega) bound twin
      exact plain d ⟨k, x, leaves.full bound, twin⟩
    unfold Row.right at right
    split at right <;> split at right
    · rename_i more more'
      exact lefts.join (ih (Nat.le_of_succ_le low) more more' right)
    · rename_i more _
      exact absurd (left.trans right.symm) (noTwins b i more)
    · rename_i _ more'
      exact absurd (left.symm.trans right) (noTwins c j more')
    · rename_i ends ends'
      exact lefts.join (sameLeaves_outside (by omega) (by omega))

/-- The node of level `d` that the turns of `p` lead to from node `i` of level `d + h`. Where a right child is missing the left
one stands in. -/
def follow (row : Row α) (d : Nat) : Nat → Nat → Nat → Nat
  | 0, _, i => i
  | h + 1, p, i => follow row d h p (if p.testBit h ∧ (2 * i + 1) * 2 ^ (d + h) < row.size then 2 * i + 1 else 2 * i)

/-- What the turns of `p` lead to when each value is taken apart into the pair it was combined from. -/
def descend (halves : α → α × α) : Nat → Nat → α → α
  | 0, _, x => x
  | h + 1, p, x => descend halves h p (if p.testBit h then (halves x).2 else (halves x).1)

theorem descend_add (halves : α → α × α) (e h p : Nat) (x : α) :
    descend halves (e + h) p x = descend halves e p (descend halves h (p / 2 ^ e) x) := by
  induction h generalizing x with
  | zero => rfl
  | succ h ih => rw [← Nat.add_assoc, descend, ih, descend, Nat.testBit_div_two_pow, Nat.add_comm h e]

theorem follow_inside (inside : i * 2 ^ (d + h) < row.size) : row.follow d h p i * 2 ^ d < row.size := by
  induction h generalizing i with
  | zero => exact inside
  | succ h ih =>
    rw [follow]
    split
    · next more => exact ih more.2
    · refine ih ?_
      have start : i * 2 ^ (d + (h + 1)) = 2 * i * 2 ^ (d + h) := by ring
      rwa [← start]

theorem descend_node (inverse : Set.LeftInvOn halves (Function.uncurry pair) (row.combined pair top)) (low : d + h ≤ top)
    (inside : i * 2 ^ (d + h) < row.size) :
    descend halves h p (row.node pair (d + h) i) = row.node pair d (row.follow d h p i) := by
  induction h generalizing i with
  | zero => rfl
  | succ h ih =>
    have start : i * 2 ^ (d + (h + 1)) = 2 * i * 2 ^ (d + h) := by ring
    have parted : halves (row.node pair (d + h + 1) i) = (row.node pair (d + h) (2 * i), row.right pair (d + h) i) := by
      rw [node_succ]
      exact inverse ⟨d + h, i, by omega, inside, rfl⟩
    rw [← Nat.add_assoc, descend, parted, follow, right]
    by_cases turns : p.testBit h = true
    · by_cases more : (2 * i + 1) * 2 ^ (d + h) < row.size
      · rw [if_pos turns, if_pos more, if_pos ⟨turns, more⟩]
        exact ih (by omega) more
      · rw [if_pos turns, if_neg more, if_neg (fun both => more both.2)]
        exact ih (by omega) (by omega)
    · rw [if_neg turns, if_neg (show ¬(p.testBit h = true ∧ _) from fun both => turns both.1)]
      exact ih (by omega) (by omega)

theorem node_injective (injective : Set.InjOn (Function.uncurry pair) (row.combined pair top))
    (distinct : ∀ i < row.size, ∀ j < row.size, row.leaf i = row.leaf j → i = j) (low : k ≤ top)
    (inside : i * 2 ^ k < row.size) (inside' : j * 2 ^ k < row.size)
    (same : row.node pair k i = row.node pair k j) : i = j := by
  induction k generalizing i j with
  | zero =>
    rw [Nat.pow_zero, Nat.mul_one] at inside inside'
    exact distinct i inside j inside' same
  | succ k ih =>
    have start : ∀ x, x * 2 ^ (k + 1) = 2 * x * 2 ^ k := fun x => by ring
    rw [node_succ, node_succ] at same
    have halves := injective ⟨k, i, low, inside, rfl⟩ ⟨k, j, low, inside', rfl⟩ same
    rw [start] at inside inside'
    have lefts := ih (Nat.le_of_succ_le low) inside inside' (Prod.mk.inj halves).1
    omega

/-- The nodes over a row that holds the first level of another one are those of that one, a level higher. -/
theorem node_raised {raised : Row α} (size : raised.size = (row.size + 1) / 2)
    (leaf : ∀ i < raised.size, raised.leaf i = row.node pair 1 i) (inside : i * 2 ^ k < raised.size) :
    raised.node pair k i = row.node pair (k + 1) i := by
  induction k generalizing i with
  | zero =>
    rw [Nat.pow_zero, Nat.mul_one] at inside
    exact leaf i inside
  | succ k ih =>
    have start : i * 2 ^ (k + 1) = 2 * i * 2 ^ k := by ring
    have next : (2 * i + 1) * 2 ^ (k + 1) = 2 * ((2 * i + 1) * 2 ^ k) := by ring
    rw [start] at inside
    rw [node_succ, node_succ, ih inside]
    unfold right
    by_cases more : (2 * i + 1) * 2 ^ k < raised.size
    · rw [if_pos more, if_pos (by omega), ih more]
    · rw [if_neg more, if_neg (by omega), ih inside]

variable (pair) in
/-- Two halves of one node are the same, and neither stands in for a missing one. -/
def PresentTwins (row : Row α) : Prop :=
  ∃ k i, (2 * i + 1) * 2 ^ k < row.size ∧ row.node pair k (2 * i) = row.node pair k (2 * i + 1)

theorem Twins.present (twins : row.Twins pair row.size) : row.PresentTwins pair := by
  obtain ⟨k, i, bound, same⟩ := twins
  have positive : 0 < 2 ^ k := Nat.two_pow_pos k
  have last : (2 * i + 2) * 2 ^ k = (2 * i + 1) * 2 ^ k + 2 ^ k := by ring
  exact ⟨k, i, by omega, same⟩

/-- A node over leaves that are all there is not the same as one over the end of the row, unless it has twins in it. -/
theorem twins_of_same (injective : Set.InjOn (Function.uncurry pair) (row.combined pair top))
    (low : k ≤ top) (whole : (i + 1) * 2 ^ k ≤ row.size) (begun : j * 2 ^ k < row.size)
    (cut : row.size < (j + 1) * 2 ^ k) (same : row.node pair k i = row.node pair k j) :
    row.Twins pair row.size := by
  induction k generalizing i j with
  | zero => omega
  | succ k ih =>
    have positive : 0 < 2 ^ k := Nat.two_pow_pos k
    have start : ∀ x, x * 2 ^ (k + 1) = 2 * x * 2 ^ k := fun x => by ring
    have next : ∀ x, (2 * x + 1) * 2 ^ k = 2 * x * 2 ^ k + 2 ^ k := fun x => by ring
    have last : ∀ x, (x + 1) * 2 ^ (k + 1) = (2 * x + 1) * 2 ^ k + 2 ^ k := fun x => by ring
    have both : ∀ x, (2 * x + 2) * 2 ^ k = (2 * x + 1) * 2 ^ k + 2 ^ k := fun x => by ring
    rw [last] at whole cut
    rw [start] at begun
    rw [node_succ, node_succ] at same
    have halves := injective ⟨k, i, low, by rw [start]; have := next i; omega, rfl⟩ ⟨k, j, low, by rw [start]; exact begun, rfl⟩ same
    obtain ⟨left, right_⟩ := Prod.mk.inj halves
    rw [right, if_pos (show (2 * i + 1) * 2 ^ k < row.size by omega), right] at right_
    by_cases more : (2 * j + 1) * 2 ^ k < row.size
    · rw [if_pos more] at right_
      exact ih (by omega) (by rw [both]; exact whole) more (by rw [both]; exact cut) right_
    · rw [if_neg more, ← left] at right_
      exact ⟨k, i, by rw [both]; exact whole, right_.symm⟩

theorem presentTwins_iff (injective : Set.InjOn (Function.uncurry pair) (row.combined pair top))
    (high : row.size ≤ 2 ^ top) : row.PresentTwins pair ↔ row.Twins pair row.size := by
  refine ⟨?_, Twins.present⟩
  rintro ⟨k, i, inside, same⟩
  by_cases whole : (2 * i + 2) * 2 ^ k ≤ row.size
  · exact ⟨k, i, whole, same⟩
  · have width : 2 ^ k ≤ (2 * i + 1) * 2 ^ k := Nat.le_mul_of_pos_left _ (by omega)
    have low : k < top := (Nat.pow_lt_pow_iff_right (show 1 < 2 by omega)).mp (by omega)
    exact twins_of_same injective (by omega) (Nat.le_of_lt inside) inside (Nat.lt_of_not_le whole) same

variable (pair) in
/-- What the node over leaf `p` at level `k` is combined with. -/
def sibling (row : Row α) (k p : Nat) : α :=
  if p / 2 ^ k % 2 = 0 then row.right pair k (p / 2 ^ k / 2) else row.node pair k (p / 2 ^ k - 1)

theorem node_sibling (inside : p < row.size) :
    row.node pair (k + 1) (p / 2 ^ (k + 1)) =
      if p / 2 ^ k % 2 = 1 then pair (row.sibling pair k p) (row.node pair k (p / 2 ^ k))
      else pair (row.node pair k (p / 2 ^ k)) (row.sibling pair k p) := by
  have half : p / 2 ^ (k + 1) = p / 2 ^ k / 2 := by rw [Nat.pow_succ, Nat.div_div_eq_div_mul]
  have below : p / 2 ^ k * 2 ^ k ≤ p := Nat.div_mul_le_self p _
  unfold sibling
  rw [half, node_succ]
  generalize p / 2 ^ k = q at below
  rcases Nat.mod_two_eq_zero_or_one q with even | odd
  · obtain ⟨i, rfl⟩ : ∃ i, q = 2 * i := ⟨q / 2, by omega⟩
    rw [if_neg (by omega), if_pos even, Nat.mul_div_cancel_left i (by omega)]
  · obtain ⟨i, rfl⟩ : ∃ i, q = 2 * i + 1 := ⟨q / 2, by omega⟩
    have index : (2 * i + 1) / 2 = i := by omega
    rw [if_pos odd, if_neg (by omega), index, right, if_pos (by omega), Nat.add_sub_cancel]

variable (pair) in
def siblings (row : Row α) (level p : Nat) : List α := (List.range level).map fun k => row.sibling pair k p

theorem siblings_succ (row : Row α) (level p : Nat) :
    row.siblings pair (level + 1) p = row.siblings pair level p ++ [row.sibling pair level p] := by
  rw [siblings, List.range_succ, List.map_append]
  rfl

end Row

end PaddedTree
