import Mathlib.Data.Nat.Log
import Mathlib.Data.Nat.Bitwise
import Mathlib.Logic.Function.Basic
import SchillingCoin.Lib.PaddedTree
import SchillingCoin.Primitives.Block

/-!
The merkle tree of a block, after `consensus/merkle.cpp`. The hash of a pair, `CHash256` over both,
is a parameter.
-/

namespace SchillingCoin

namespace Merkle

structure Carry where
  h : uint256
  matchh : Bool
  branch : List uint256
  mutated : Bool

/-- `inner[level]` is the hash of a complete subtree where bit `level` of the count is set. The level of
the one with the matching leaf is `matchlevel`. -/
structure State where
  count : Nat := 0
  inner : Nat → uint256 := fun _ => 0
  matchlevel : Option Nat := none
  branch : List uint256 := []
  mutated : Bool := false

structure Result where
  root : uint256
  mutated : Bool
  branch : List uint256
  deriving DecidableEq, Repr

section Computation

variable (hash2 : uint256 → uint256 → uint256)

/-- The body of the loops over the levels: the stored hash of the level is combined with the carried one. -/
def combineLevel (inner : Nat → uint256) (matchlevel : Option Nat) (level : Nat) (c : Carry) : Carry where
  h := hash2 (inner level) c.h
  matchh := c.matchh || matchlevel == some level
  branch :=
    if c.matchh then c.branch ++ [inner level]
    else if matchlevel = some level then c.branch ++ [c.h]
    else c.branch
  mutated := c.mutated || inner level == c.h

/-- The loop over the levels whose bit of the count is zero, with the level it ends at. There are 32. -/
def combineLevels (inner : Nat → uint256) (matchlevel : Option Nat) (count : Nat) : Nat → Nat → Carry → Nat × Carry
  | 0, level, c => (level, c)
  | levels + 1, level, c =>
    if count.testBit level then (level, c)
    else combineLevels inner matchlevel count levels (level + 1) (combineLevel hash2 inner matchlevel level c)

def addLeaf (branchpos : Nat) (s : State) (leaf : uint256) : State :=
  let count := s.count + 1
  let up := combineLevels hash2 s.inner s.matchlevel count 32 0
    { h := leaf, matchh := s.count == branchpos, branch := s.branch, mutated := s.mutated }
  { count
    inner := Function.update s.inner up.1 up.2.h
    matchlevel := if up.2.matchh then some up.1 else s.matchlevel
    branch := up.2.branch
    mutated := up.2.mutated }

def lowestLevel (count : Nat) : Nat → Nat → Nat
  | 0, level => level
  | levels + 1, level => if count.testBit level then level else lowestLevel count levels (level + 1)

/-- The sweep over the right edge of the tree. It does not look for equal hashes. -/
def sweep (inner : Nat → uint256) (matchlevel : Option Nat) : Nat → Nat → Nat → Carry → Carry
  | 0, _, _, c => c
  | rounds + 1, count, level, c =>
    if count = 2 ^ level then c
    else
      let doubled := { c with h := hash2 c.h c.h, branch := if c.matchh then c.branch ++ [c.h] else c.branch }
      let up := combineLevels hash2 inner matchlevel (count + 2 ^ level) 32 (level + 1) doubled
      sweep inner matchlevel rounds (count + 2 ^ level) up.1 { up.2 with mutated := c.mutated }

/-- `MerkleComputation`. The branch is what it leaves in `pbranch` when it is asked for one. With more
than `2 ^ 31` leaves `count` wraps in the sweep, which then does not end. -/
def merkleComputation (leaves : List uint256) (branchpos : Nat) : Option Result :=
  if leaves.isEmpty then some { root := 0, mutated := false, branch := [] }
  else if leaves.length > 2 ^ 31 then none
  else
    let s := leaves.foldl (addLeaf hash2 branchpos) {}
    let level := lowestLevel s.count 32 0
    let c := sweep hash2 s.inner s.matchlevel 32 s.count level
      { h := s.inner level, matchh := s.matchlevel == some level, branch := s.branch, mutated := s.mutated }
    some { root := c.h, mutated := c.mutated, branch := c.branch }

/-- The root and whether the tree was mutated. The position is `(uint32_t)-1`. -/
def computeMerkleRoot (leaves : List uint256) : Option (uint256 × Bool) :=
  (merkleComputation hash2 leaves (2 ^ 32 - 1)).map fun r => (r.root, r.mutated)

def computeMerkleBranch (leaves : List uint256) (position : Nat) : Option (List uint256) :=
  (merkleComputation hash2 leaves position).map Result.branch

def blockMerkleRoot (block : CBlock) : Option (uint256 × Bool) :=
  computeMerkleRoot hash2 (block.vtx.map CTransaction.getHash)

end Computation

def row (leaves : List uint256) : PaddedTree.Row uint256 := ⟨fun i => leaves.getD i 0, leaves.length⟩

variable {j p : Nat}

theorem testBit_iff : m.testBit j = true ↔ m / 2 ^ j % 2 = 1 := by
  rw [Nat.testBit_eq_decide_div_mod_eq, decide_eq_true_iff]

theorem testBit_multiple : ((p + 1) * 2 ^ j).testBit j = true ↔ p % 2 = 0 := by
  rw [testBit_iff, Nat.mul_div_cancel _ (Nat.two_pow_pos j)]
  omega

theorem even_of_multiple (same : (p + 1) * 2 ^ j = 2 * a * 2 ^ k) (low : j ≤ k) : p % 2 = 1 := by
  obtain ⟨d, rfl⟩ : ∃ d, k = j + d := ⟨k - j, by omega⟩
  have cancelled : p + 1 = 2 * (a * 2 ^ d) := by
    apply Nat.eq_of_mul_eq_mul_right (Nat.two_pow_pos j)
    rw [same]
    ring
  omega

theorem level_unique (same : (p + 1) * 2 ^ i = (q + 1) * 2 ^ j) (odd : p % 2 = 0) (odd' : q % 2 = 0) : i = j := by
  rcases Nat.lt_trichotomy i j with below | same' | above
  · obtain ⟨k, rfl⟩ : ∃ k, j = k + 1 := ⟨j - 1, by omega⟩
    have even := even_of_multiple (a := q + 1) (same.trans (by ring)) (show i ≤ k by omega)
    omega
  · exact same'
  · obtain ⟨k, rfl⟩ : ∃ k, i = k + 1 := ⟨i - 1, by omega⟩
    have even := even_of_multiple (a := p + 1) (same.symm.trans (by ring)) (show j ≤ k by omega)
    omega

theorem exists_bit (small : (p + 1) * 2 ^ j < 2 ^ 32) :
    ∃ l, j ≤ l ∧ l < j + 32 ∧ ((p + 1) * 2 ^ j).testBit l = true := by
  obtain ⟨l, bit⟩ := Nat.exists_testBit_of_ne_zero (x := p + 1) (by omega)
  have here : ((p + 1) * 2 ^ j).testBit (j + l) = true := by
    rw [Nat.mul_comm, Nat.testBit_two_pow_mul]
    simpa using bit
  have low : j + l < 32 := by
    by_contra high
    have zero := Nat.testBit_lt_two_pow (Nat.lt_of_lt_of_le small (Nat.pow_le_pow_right (by omega) (Nat.le_of_not_lt high)))
    rw [zero] at here
    cases here
  exact ⟨j + l, by omega, by omega, here⟩

section Loops

variable {hash2 : uint256 → uint256 → uint256}

variable {count level : Nat} {c : Carry} {r : PaddedTree.Row uint256} {s : State}
  {leaves : List uint256}

theorem combineLevels_invariant (inner : Nat → uint256) (matchlevel : Option Nat) (I : Nat → Carry → Prop)
    (kept : ∀ level c, count.testBit level = false → I level c →
      I (level + 1) (combineLevel hash2 inner matchlevel level c))
    (bit : ∃ l, level ≤ l ∧ l < level + levels ∧ count.testBit l = true) (start : I level c) :
    count.testBit (combineLevels hash2 inner matchlevel count levels level c).1 = true ∧
      I (combineLevels hash2 inner matchlevel count levels level c).1
        (combineLevels hash2 inner matchlevel count levels level c).2 := by
  induction levels generalizing level c with
  | zero =>
    obtain ⟨l, low, high, _⟩ := bit
    omega
  | succ levels ih =>
    unfold combineLevels
    by_cases here : count.testBit level = true
    · rw [if_pos here]
      exact ⟨here, start⟩
    · rw [if_neg here]
      have zero : count.testBit level = false := by simpa using here
      obtain ⟨l, low, high, set⟩ := bit
      have above : level ≠ l := fun same => here (same ▸ set)
      exact ih ⟨l, by omega, by omega, set⟩ (kept level c zero start)

theorem lowestLevel_spec (bit : ∃ l, level ≤ l ∧ l < level + levels ∧ count.testBit l = true) (low : 2 ^ level ∣ count) :
    count.testBit (lowestLevel count levels level) = true ∧ 2 ^ lowestLevel count levels level ∣ count := by
  induction levels generalizing level with
  | zero =>
    obtain ⟨l, low, high, _⟩ := bit
    omega
  | succ levels ih =>
    unfold lowestLevel
    by_cases here : count.testBit level = true
    · rw [if_pos here]
      exact ⟨here, low⟩
    · rw [if_neg here]
      obtain ⟨l, low', high, set⟩ := bit
      have above : level ≠ l := fun same => here (same ▸ set)
      refine ih ⟨l, by omega, by omega, set⟩ ?_
      obtain ⟨q, rfl⟩ := low
      have even : q % 2 = 0 := by
        rw [testBit_iff, Nat.mul_div_cancel_left _ (Nat.two_pow_pos level)] at here
        omega
      exact ⟨q / 2, by rw [Nat.pow_succ, Nat.mul_assoc]; congr 1; omega⟩

structure Processed (hash2 : uint256 → uint256 → uint256) (r : PaddedTree.Row uint256) (s : State) : Prop where
  inner : ∀ j p, s.count / 2 ^ j = p + 1 → p % 2 = 0 → s.inner j = r.node hash2 j p
  mutated : s.mutated = true ↔ r.Twins hash2 s.count

theorem processed_start (r : PaddedTree.Row uint256) : Processed hash2 r {} where
  inner j p quotient _ := by simp at quotient
  mutated := by
    constructor
    · intro impossible
      cases impossible
    · rintro ⟨k, i, bound, _⟩
      have positive : 0 < (2 * i + 2) * 2 ^ k := Nat.mul_pos (by omega) (Nat.two_pow_pos k)
      have zero : ({} : State).count = 0 := rfl
      omega

theorem twins_succ (multiple : m + 1 = (p + 1) * 2 ^ level) (odd : p % 2 = 0) :
    r.Twins hash2 (m + 1) ↔ r.Twins hash2 m ∨ ∃ k i, k < level ∧ m + 1 = (2 * i + 2) * 2 ^ k ∧
      r.node hash2 k (2 * i) = r.node hash2 k (2 * i + 1) := by
  constructor
  · rintro ⟨k, i, bound, same⟩
    by_cases earlier : (2 * i + 2) * 2 ^ k ≤ m
    · exact Or.inl ⟨k, i, earlier, same⟩
    · have exact_ : m + 1 = (2 * i + 2) * 2 ^ k := by omega
      refine Or.inr ⟨k, i, ?_, exact_, same⟩
      by_contra high
      have even := even_of_multiple (a := i + 1) (multiple.symm.trans (exact_.trans (by ring))) (Nat.le_of_not_lt high)
      omega
  · rintro (⟨k, i, bound, same⟩ | ⟨k, i, _, exact_, same⟩)
    · exact ⟨k, i, by omega, same⟩
    · exact ⟨k, i, by omega, same⟩

def Carries (hash2 : uint256 → uint256 → uint256) (r : PaddedTree.Row uint256) (m level : Nat) (c : Carry) : Prop :=
  ∃ p, m + 1 = (p + 1) * 2 ^ level ∧ c.h = r.node hash2 level p ∧
    (c.mutated = true ↔ r.Twins hash2 m ∨ ∃ k i, k < level ∧ m + 1 = (2 * i + 2) * 2 ^ k ∧
      r.node hash2 k (2 * i) = r.node hash2 k (2 * i + 1))

theorem carries_next (before : Processed hash2 r s) (inside : s.count < r.size)
    (zero : (s.count + 1).testBit level = false) (carries : Carries hash2 r s.count level c) :
    Carries hash2 r s.count (level + 1) (combineLevel hash2 s.inner s.matchlevel level c) := by
  obtain ⟨p, multiple, hash, seen⟩ := carries
  have even : ¬p % 2 = 0 := by
    rw [← testBit_multiple (j := level), ← multiple, zero]
    simp
  obtain ⟨i, rfl⟩ : ∃ i, p = 2 * i + 1 := ⟨p / 2, by omega⟩
  have positive : 0 < 2 ^ level := Nat.two_pow_pos level
  have split : (2 * i + 1 + 1) * 2 ^ level = (2 * i + 1) * 2 ^ level + 2 ^ level := by ring
  have stored : s.inner level = r.node hash2 level (2 * i) := by
    refine before.inner level (2 * i) ?_ (by omega)
    rw [Nat.div_eq_iff positive]
    omega
  refine ⟨i, by rw [multiple]; ring, ?_, ?_⟩
  · rw [PaddedTree.Row.node_full hash2 (by omega), ← stored, ← hash]
    rfl
  · have flag : (combineLevel hash2 s.inner s.matchlevel level c).mutated = (c.mutated || s.inner level == c.h) := rfl
    rw [flag, Bool.or_eq_true, seen, beq_iff_eq, stored, hash]
    constructor
    · rintro ((twins | ⟨k, j, low, ends, same⟩) | same)
      · exact Or.inl twins
      · exact Or.inr ⟨k, j, by omega, ends, same⟩
      · exact Or.inr ⟨level, i, by omega, multiple, same⟩
    · rintro (twins | ⟨k, j, low, ends, same⟩)
      · exact Or.inl (Or.inl twins)
      · by_cases here : k = level
        · subst here
          have index : 2 * j + 2 = 2 * i + 1 + 1 :=
            Nat.eq_of_mul_eq_mul_right positive (ends.symm.trans multiple)
          obtain rfl : j = i := by omega
          exact Or.inr same
        · exact Or.inl (Or.inr ⟨k, j, by omega, ends, same⟩)

theorem addLeaf_processed (branchpos : Nat) (before : Processed hash2 r s) (inside : s.count < r.size)
    (small : r.size ≤ 2 ^ 31) : Processed hash2 r (addLeaf hash2 branchpos s (r.leaf s.count)) := by
  have bit : ∃ l, 0 ≤ l ∧ l < 0 + 32 ∧ (s.count + 1).testBit l = true := by
    have found := exists_bit (p := s.count) (j := 0) (by omega)
    rwa [Nat.pow_zero, Nat.mul_one] at found
  have start : Carries hash2 r s.count 0
      { h := r.leaf s.count, matchh := s.count == branchpos, branch := s.branch, mutated := s.mutated } := by
    refine ⟨s.count, by simp, rfl, ?_⟩
    rw [before.mutated]
    simp
  obtain ⟨set, p, multiple, hash, seen⟩ := combineLevels_invariant s.inner s.matchlevel (Carries hash2 r s.count)
    (fun _ _ zero carries => carries_next before inside zero carries) bit start
  simp only [addLeaf]
  generalize combineLevels hash2 s.inner s.matchlevel (s.count + 1) 32 0 _ = up at set multiple hash seen ⊢
  have odd : p % 2 = 0 := by rwa [multiple, testBit_multiple] at set
  constructor
  · intro j q quotient even
    by_cases here : j = up.1
    · subst here
      rw [multiple, Nat.mul_div_cancel _ (Nat.two_pow_pos up.1)] at quotient
      obtain rfl : p = q := by omega
      simp only [Function.update_self, hash]
    · have other : ¬2 ^ j ∣ s.count + 1 := by
        rintro ⟨d, exact_⟩
        rw [exact_, Nat.mul_div_cancel_left _ (Nat.two_pow_pos j)] at quotient
        rw [exact_, quotient, Nat.mul_comm] at multiple
        exact here (level_unique multiple even odd)
      rw [Nat.succ_div, if_neg other, Nat.add_zero] at quotient
      simp only [Function.update_of_ne here]
      exact before.inner j q quotient even
  · exact seen.trans (twins_succ multiple odd).symm

theorem addLeaves_invariant (hash2 : uint256 → uint256 → uint256) (branchpos : Nat)
    (small : leaves.length ≤ 2 ^ 31) (I : State → Prop) (start : I {})
    (step : ∀ s, Processed hash2 (row leaves) s → s.count < (row leaves).size → I s → I (addLeaf hash2 branchpos s ((row leaves).leaf s.count))) :
    Processed hash2 (row leaves) (leaves.foldl (addLeaf hash2 branchpos) {}) ∧
      (leaves.foldl (addLeaf hash2 branchpos) {}).count = leaves.length ∧ I (leaves.foldl (addLeaf hash2 branchpos) {}) := by
  -- Over the prefixes of the row.
  have prefixes : ∀ n ≤ leaves.length,
      Processed hash2 (row leaves) ((leaves.take n).foldl (addLeaf hash2 branchpos) {}) ∧
        ((leaves.take n).foldl (addLeaf hash2 branchpos) {}).count = n ∧ I ((leaves.take n).foldl (addLeaf hash2 branchpos) {}) := by
    intro n
    induction n with
    | zero => exact fun _ => ⟨processed_start _, rfl, start⟩
    | succ n ih =>
      intro bound
      obtain ⟨done, count, kept⟩ := ih (by omega)
      have next : leaves.take (n + 1) = leaves.take n ++ [(row leaves).leaf n] := by
        rw [List.take_add_one, List.getElem?_eq_getElem bound]
        simp [row, List.getD_eq_getElem?_getD, List.getElem?_eq_getElem bound]
      rw [next, List.foldl_append, List.foldl_cons, List.foldl_nil]
      have inside : ((leaves.take n).foldl (addLeaf hash2 branchpos) {}).count < (row leaves).size := by
        rw [count]
        exact bound
      have processed := addLeaf_processed branchpos done inside small
      have kept' := step _ done inside kept
      rw [count] at processed kept'
      exact ⟨processed, congrArg (· + 1) count, kept'⟩
  have whole := prefixes leaves.length le_rfl
  rwa [List.take_length] at whole

/-- The carried hash is that of the last node of a level: the node holds the last leaf, and the level is
no higher than the tree. -/
def LastNode (hash2 : uint256 → uint256 → uint256) (r : PaddedTree.Row uint256) (count level : Nat) (c : Carry) : Prop :=
  ∃ p, count = (p + 1) * 2 ^ level ∧ c.h = r.node hash2 level p ∧ p * 2 ^ level < r.size ∧ 2 ^ level < 2 * r.size

theorem lastNode_next (done : Processed hash2 r s) (all : s.count = r.size) (past : r.size < count)
    (zero : count.testBit level = false) (last : LastNode hash2 r count level c) :
    LastNode hash2 r count (level + 1) (combineLevel hash2 s.inner s.matchlevel level c) := by
  obtain ⟨p, multiple, hash, holds, low⟩ := last
  have even : ¬p % 2 = 0 := by
    rw [← testBit_multiple (j := level), ← multiple, zero]
    simp
  obtain ⟨i, rfl⟩ : ∃ i, p = 2 * i + 1 := ⟨p / 2, by omega⟩
  have positive : 0 < 2 ^ level := Nat.two_pow_pos level
  have split : (2 * i + 1 + 1) * 2 ^ level = (2 * i + 1) * 2 ^ level + 2 ^ level := by ring
  have first : (2 * i + 1) * 2 ^ level = i * 2 ^ (level + 1) + 2 ^ level := by ring
  have stored : s.inner level = r.node hash2 level (2 * i) := by
    refine done.inner level (2 * i) ?_ (by omega)
    rw [all, Nat.div_eq_iff positive]
    omega
  refine ⟨i, by rw [multiple]; ring, ?_, by omega, ?_⟩
  · rw [PaddedTree.Row.node_full hash2 holds, ← stored, ← hash]
    rfl
  · rw [Nat.pow_succ]
    omega

theorem clog_eq_of_bounds (above : n ≤ 2 ^ level) (below : 2 ^ level < 2 * n) : Nat.clog 2 n = level := by
  apply Nat.le_antisymm
  · exact (Nat.clog_le_iff_le_pow (by omega)).mpr above
  · cases level with
    | zero => omega
    | succ level =>
      rw [Nat.pow_succ] at below
      exact (Nat.lt_clog_iff_pow_lt (by omega)).mpr (by omega)

theorem sweep_spec (done : Processed hash2 r s) (all : s.count = r.size) (small : r.size ≤ 2 ^ 31)
    (I : Nat → Nat → Bool → List uint256 → Prop)
    (double : ∀ count level c, LastNode hash2 r count level c → r.size ≤ count → count.testBit level = true →
      I count level c.matchh c.branch → I (count + 2 ^ level) (level + 1) c.matchh (if c.matchh then c.branch ++ [c.h] else c.branch))
    (combine : ∀ count level c, LastNode hash2 r count level c → r.size < count → count.testBit level = false →
      I count level c.matchh c.branch → I count (level + 1) (combineLevel hash2 s.inner s.matchlevel level c).matchh
        (combineLevel hash2 s.inner s.matchlevel level c).branch) (enough : 32 ≤ rounds + level)
    (last : LastNode hash2 r count level c) (covers : r.size ≤ count) (set : count.testBit level = true)
    (start : I count level c.matchh c.branch) :
    (sweep hash2 s.inner s.matchlevel rounds count level c).h = r.node hash2 (Nat.clog 2 r.size) 0 ∧
      (sweep hash2 s.inner s.matchlevel rounds count level c).mutated = c.mutated ∧
      I (2 ^ Nat.clog 2 r.size) (Nat.clog 2 r.size) (sweep hash2 s.inner s.matchlevel rounds count level c).matchh
        (sweep hash2 s.inner s.matchlevel rounds count level c).branch := by
  induction rounds generalizing count level c with
  | zero =>
    obtain ⟨_, _, _, _, low⟩ := last
    have high := Nat.pow_le_pow_right (show 0 < 2 by omega) (show 32 ≤ level by omega)
    omega
  | succ rounds ih =>
    have whole := last
    obtain ⟨p, multiple, hash, holds, low⟩ := last
    have odd : p % 2 = 0 := by rwa [multiple, testBit_multiple] at set
    have positive : 0 < 2 ^ level := Nat.two_pow_pos level
    unfold sweep
    by_cases top : count = 2 ^ level
    · rw [if_pos top]
      obtain rfl : p = 0 := by
        have one : (p + 1) * 2 ^ level = 1 * 2 ^ level := by rw [← multiple, top, Nat.one_mul]
        have := Nat.eq_of_mul_eq_mul_right positive one
        omega
      rw [clog_eq_of_bounds (by omega) low]
      rw [top] at start
      exact ⟨hash, rfl, start⟩
    · rw [if_neg top]
      have above : p ≠ 0 := by
        rintro rfl
        exact top (by rw [multiple]; ring)
      obtain ⟨i, rfl⟩ : ∃ i, p = 2 * i := ⟨p / 2, by omega⟩
      have next : count + 2 ^ level = (i + 1) * 2 ^ (level + 1) := by
        rw [multiple]
        ring
      have wide : 2 ^ (level + 1) < 2 * r.size := by
        have least := Nat.mul_le_mul_right (2 ^ level) (show 2 ≤ 2 * i by omega)
        rw [Nat.pow_succ]
        omega
      have doubled : LastNode hash2 r (count + 2 ^ level) (level + 1)
          { c with h := hash2 c.h c.h, branch := if c.matchh then c.branch ++ [c.h] else c.branch } := by
        have start : 2 * i * 2 ^ level = i * 2 ^ (level + 1) := by ring
        refine ⟨i, next, ?_, by omega, wide⟩
        rw [PaddedTree.Row.node_repeated hash2 (by omega), ← hash]
      have bound : (i + 1) * 2 ^ (level + 1) < 2 ^ 32 := by
        have low' : level + 1 < 32 := (Nat.pow_lt_pow_iff_right (show 1 < 2 by omega)).mp (by omega)
        have top' := Nat.pow_le_pow_right (show 0 < 2 by omega) (show level + 1 ≤ 31 by omega)
        have start : 2 * i * 2 ^ level = i * 2 ^ (level + 1) := by ring
        have sum : (i + 1) * 2 ^ (level + 1) = i * 2 ^ (level + 1) + 2 ^ (level + 1) := by ring
        omega
      have bit := exists_bit bound
      rw [← next] at bit
      have past : r.size < count + 2 ^ level := by omega
      obtain ⟨set', last', higher, kept⟩ := combineLevels_invariant s.inner s.matchlevel
        (fun l up => LastNode hash2 r (count + 2 ^ level) l up ∧ level + 1 ≤ l ∧ I (count + 2 ^ level) l up.matchh up.branch)
        (fun l up zero inv => ⟨lastNode_next done all past zero inv.1, by omega, combine _ l up inv.1 past zero inv.2.2⟩) bit
        ⟨doubled, le_rfl, double count level c whole covers set start⟩
      exact ih (by omega) last' (by omega) set' kept

/-- The computation ends, with the root of the tree and the flag for two complete halves in it that are the same. -/
theorem merkleComputation_spec (hash2 : uint256 → uint256 → uint256) (nonempty : leaves ≠ [])
    (small : leaves.length ≤ 2 ^ 31) (branchpos : Nat) (M : State → Prop)
    (I : State → Nat → Nat → Bool → List uint256 → Prop) (start : M {})
    (step : ∀ s, Processed hash2 (row leaves) s → s.count < (row leaves).size → M s → M (addLeaf hash2 branchpos s ((row leaves).leaf s.count)))
    (enter : ∀ s level c, M s → LastNode hash2 (row leaves) s.count level c → s.count.testBit level = true →
      I s s.count level (s.matchlevel == some level) s.branch)
    (double : ∀ s count level c, M s → LastNode hash2 (row leaves) count level c → (row leaves).size ≤ count → count.testBit level = true →
      I s count level c.matchh c.branch → I s (count + 2 ^ level) (level + 1) c.matchh (if c.matchh then c.branch ++ [c.h] else c.branch))
    (combine : ∀ s count level c, M s → Processed hash2 (row leaves) s → s.count = (row leaves).size →
      LastNode hash2 (row leaves) count level c → (row leaves).size < count → count.testBit level = false →
      I s count level c.matchh c.branch → I s count (level + 1) (combineLevel hash2 s.inner s.matchlevel level c).matchh
        (combineLevel hash2 s.inner s.matchlevel level c).branch) :
    ∃ (s : State) (c : Carry), merkleComputation hash2 leaves branchpos = some { root := c.h, mutated := c.mutated, branch := c.branch } ∧
      c.h = (row leaves).node hash2 (Nat.clog 2 leaves.length) 0 ∧ (c.mutated = true ↔ (row leaves).Twins hash2 leaves.length) ∧
      I s (2 ^ Nat.clog 2 leaves.length) (Nat.clog 2 leaves.length) c.matchh c.branch := by
  unfold merkleComputation
  rw [if_neg (by simpa using nonempty), if_neg (Nat.not_lt.mpr small)]
  obtain ⟨done, count, kept⟩ := addLeaves_invariant hash2 branchpos small M start step
  generalize leaves.foldl (addLeaf hash2 branchpos) {} = s at done count kept
  have some_ : 0 < s.count := by
    rw [count]
    exact List.length_pos_of_ne_nil nonempty
  have bit : ∃ l, 0 ≤ l ∧ l < 0 + 32 ∧ s.count.testBit l = true := by
    have found := exists_bit (p := s.count - 1) (j := 0) (by omega)
    rwa [Nat.pow_zero, Nat.mul_one, Nat.sub_add_cancel some_] at found
  obtain ⟨set, divides⟩ := lowestLevel_spec bit (by simp)
  have last : LastNode hash2 (row leaves) s.count (lowestLevel s.count 32 0)
      { h := s.inner (lowestLevel s.count 32 0), matchh := s.matchlevel == some (lowestLevel s.count 32 0),
        branch := s.branch, mutated := s.mutated } := by
    generalize lowestLevel s.count 32 0 = level at set divides
    obtain ⟨q, multiple⟩ := divides
    have positive : 0 < 2 ^ level := Nat.two_pow_pos level
    obtain ⟨p, rfl⟩ : ∃ p, q = p + 1 := by
      cases q with
      | zero => omega
      | succ p => exact ⟨p, rfl⟩
    rw [Nat.mul_comm] at multiple
    have odd : p % 2 = 0 := by rwa [multiple, testBit_multiple] at set
    have ends : (p + 1) * 2 ^ level = p * 2 ^ level + 2 ^ level := by ring
    have size : s.count = (row leaves).size := count
    refine ⟨p, multiple, ?_, by omega, by omega⟩
    exact done.inner level p (by rw [multiple, Nat.mul_div_cancel _ positive]) odd
  have all : s.count = (row leaves).size := count
  obtain ⟨top, flag, branch⟩ := sweep_spec done all small (I s) (fun count level c => double s count level c kept)
    (fun count level c => combine s count level c kept done all) (by omega : 32 ≤ 32 + _) last (Nat.le_of_eq all.symm) set
    (enter s _ _ kept last set)
  exact ⟨s, _, rfl, top, by rw [flag, done.mutated, count], branch⟩

theorem computeMerkleRoot_tree (nonempty : leaves ≠ []) (h : computeMerkleRoot hash2 leaves = some (root, mutated)) :
    root = (row leaves).node hash2 (Nat.clog 2 leaves.length) 0 ∧
      (mutated = true ↔ (row leaves).Twins hash2 leaves.length) := by
  have small : leaves.length ≤ 2 ^ 31 := by
    by_contra large
    have none_ : merkleComputation hash2 leaves (2 ^ 32 - 1) = none := by
      rw [merkleComputation, if_neg (by simpa using nonempty), if_pos (Nat.lt_of_not_le large)]
    rw [computeMerkleRoot, none_] at h
    cases h
  obtain ⟨s, c, computed, top, flag, -⟩ := merkleComputation_spec hash2 nonempty small (2 ^ 32 - 1) (fun _ => True)
    (fun _ _ _ _ _ => True) trivial (fun _ _ _ _ => trivial) (fun _ _ _ _ _ _ => trivial) (fun _ _ _ _ _ _ _ _ _ => trivial)
    (fun _ _ _ _ _ _ _ _ _ _ _ => trivial)
  rw [computeMerkleRoot, computed] at h
  obtain ⟨rfl, rfl⟩ := Prod.mk.inj (Option.some.inj h)
  exact ⟨top, flag⟩

end Loops

theorem row_determines_leaves (bound : leaves.length ≤ 2 ^ height) (bound' : leaves'.length ≤ 2 ^ height)
    (same : (row leaves).SameLeaves (row leaves') height 0 0) : leaves = leaves' := by
  have at_ : ∀ t < 2 ^ height, (t < leaves.length ↔ t < leaves'.length) ∧
      (t < leaves.length → leaves.getD t 0 = leaves'.getD t 0) := by
    intro t low
    have here := same t low
    rw [Nat.zero_mul, Nat.zero_add] at here
    exact here
  have length : leaves.length = leaves'.length := by
    rcases Nat.lt_trichotomy leaves.length leaves'.length with below | same' | above
    · have := (at_ leaves.length (by omega)).1
      omega
    · exact same'
    · have := (at_ leaves'.length (by omega)).1
      omega
  apply List.ext_getElem length
  intro t inside inside'
  have here := (at_ t (by omega)).2 inside
  rwa [List.getD_eq_getElem _ _ inside, List.getD_eq_getElem _ _ inside'] at here

def hashedPairs (hash2 : uint256 → uint256 → uint256) (leaves : List uint256) : Set (uint256 × uint256) :=
  (row leaves).combined hash2 (Nat.clog 2 leaves.length)

/-- Two lists whose trees have one height, with the same root and no mutation, are the same, when no
two of the pairs hashed for them collide. -/
theorem unmutated_root_determines_leaves (hash2 : uint256 → uint256 → uint256) (leaves leaves' : List uint256) (root : uint256)
    (nonempty : leaves ≠ []) (nonempty' : leaves' ≠ [])
    (height : Nat.clog 2 leaves.length = Nat.clog 2 leaves'.length)
    (injective : Set.InjOn (Function.uncurry hash2) (hashedPairs hash2 leaves ∪ hashedPairs hash2 leaves'))
    (computed : computeMerkleRoot hash2 leaves = some (root, false))
    (computed' : computeMerkleRoot hash2 leaves' = some (root, false)) : leaves = leaves' := by
  obtain ⟨root_, flag⟩ := computeMerkleRoot_tree nonempty computed
  obtain ⟨root_', flag'⟩ := computeMerkleRoot_tree nonempty' computed'
  let rows : Bool → PaddedTree.Row uint256 := fun b => if b then row leaves' else row leaves
  have collisionFree : Set.InjOn (Function.uncurry hash2)
      (⋃ b, (rows b).combined hash2 (Nat.clog 2 leaves.length)) := by
    apply injective.mono
    rw [Set.iUnion_subset_iff]
    intro b
    cases b with
    | false => exact Set.subset_union_left
    | true =>
      rw [height]
      exact Set.subset_union_right
  have plain : ∀ b, ¬(rows b).Twins hash2 (rows b).size := by
    intro b
    cases b with
    | false => exact fun twins => absurd (flag.mpr twins) (by simp)
    | true => exact fun twins => absurd (flag'.mpr twins) (by simp)
  have roots : (rows false).node hash2 (Nat.clog 2 leaves.length) 0 = (rows true).node hash2 (Nat.clog 2 leaves.length) 0 := by
    have top := root_.symm.trans root_'
    rw [← height] at top
    exact top
  have same := PaddedTree.Row.sameLeaves_of_node_eq rows collisionFree plain le_rfl
    (by rw [Nat.zero_mul]; exact List.length_pos_of_ne_nil nonempty)
    (by rw [Nat.zero_mul]; exact List.length_pos_of_ne_nil nonempty') roots
  exact row_determines_leaves (Nat.le_pow_clog (by omega) _) (height ▸ Nat.le_pow_clog (by omega) _) same

def threeLeavesHash (a b : uint256) : uint256 :=
  let first : uint256 := 0xff8f6e7ac7aa0bfc98af8be24ed6ae1ab243f64aaa065366b2215e697fddb64b
  let second : uint256 := 0x7c38ce69386961b6ae58e23ff1baa4a5f404f5b272538419b083b33e15b5e610
  if a = 1 ∧ b = 2 then first
  else if a = 3 ∧ b = 3 then second
  else if a = first ∧ b = second then 0xe9ffb584c62449f157c8be88257bd1eebb2d8ef824f5c86b43c4f8fd9e800d6a
  else 0

theorem threeLeavesHash_pairs {p : uint256 × uint256} (hashed : p ∈ hashedPairs threeLeavesHash [1, 2, 3]) :
    p = (1, 2) ∨ p = (3, 3) ∨ p = (threeLeavesHash 1 2, threeLeavesHash 3 3) := by
  obtain ⟨k, i, low, inside, rfl⟩ := hashed
  have height : Nat.clog 2 [(1 : uint256), 2, 3].length = 2 := by decide
  have size : (row [1, 2, 3]).size = 3 := rfl
  rw [height] at low
  rw [size] at inside
  obtain rfl | rfl : k = 0 ∨ k = 1 := by omega
  · obtain rfl | rfl : i = 0 ∨ i = 1 := by omega
    · exact Or.inl rfl
    · exact Or.inr (Or.inl rfl)
  · obtain rfl : i = 0 := by omega
    exact Or.inr (Or.inr rfl)

theorem threeLeavesHash_injective : Set.InjOn (Function.uncurry threeLeavesHash)
    { p | p = (1, 2) ∨ p = (3, 3) ∨ p = (threeLeavesHash 1 2, threeLeavesHash 3 3) } := by
  intro p hashed q hashed' same
  obtain rfl | rfl | rfl := hashed <;> obtain rfl | rfl | rfl := hashed'
  · rfl
  · exact absurd same (by decide)
  · exact absurd same (by decide)
  · exact absurd same (by decide)
  · rfl
  · exact absurd same (by decide)
  · exact absurd same (by decide)
  · exact absurd same (by decide)
  · rfl

theorem three_leaves_determined :
    computeMerkleRoot threeLeavesHash [1, 2, 3] =
      some (0xe9ffb584c62449f157c8be88257bd1eebb2d8ef824f5c86b43c4f8fd9e800d6a, false) ∧
    ([1, 2, 3] : List uint256) = [1, 2, 3] := by
  have computed : computeMerkleRoot threeLeavesHash [1, 2, 3] =
      some (0xe9ffb584c62449f157c8be88257bd1eebb2d8ef824f5c86b43c4f8fd9e800d6a, false) := by decide
  refine ⟨computed, unmutated_root_determines_leaves threeLeavesHash [1, 2, 3] [1, 2, 3] _ (by simp) (by simp) rfl ?_
    computed computed⟩
  rw [Set.union_self]
  exact threeLeavesHash_injective.mono fun p hashed => threeLeavesHash_pairs hashed

end Merkle

end SchillingCoin
