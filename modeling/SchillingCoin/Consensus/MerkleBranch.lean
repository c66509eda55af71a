import SchillingCoin.Consensus.Merkle

/-!
The branch that `MerkleComputation` puts out for a position, the root that is computed from it, and the tree that is computed level
by level.
-/

namespace SchillingCoin

namespace Merkle

section Definitions

variable (hash2 : uint256 → uint256 → uint256)

def computeMerkleRootFromBranch : uint256 → List uint256 → Nat → uint256
  | hash, [], _ => hash
  | hash, it :: vMerkleBranch, nIndex =>
    computeMerkleRootFromBranch (if nIndex % 2 = 1 then hash2 it hash else hash2 hash it) vMerkleBranch (nIndex / 2)

/-- The hashes of adjacent pairs. The last one of an odd level is paired with itself. -/
def nextLevel : List uint256 → List uint256
  | [] => []
  | [a] => [hash2 a a]
  | a :: b :: rest => hash2 a b :: nextLevel rest

theorem length_nextLevel (leaves : List uint256) : (nextLevel hash2 leaves).length = (leaves.length + 1) / 2 := by
  induction leaves using nextLevel.induct with
  | case1 => rfl
  | case2 a => simp [nextLevel]
  | case3 a b rest ih =>
    rw [nextLevel, List.length_cons, ih, List.length_cons, List.length_cons]
    omega

def rootByLevels : List uint256 → uint256
  | [] => 0
  | [a] => a
  | a :: b :: rest => rootByLevels (nextLevel hash2 (a :: b :: rest))
termination_by leaves => leaves.length
decreasing_by
  rw [length_nextLevel, List.length_cons, List.length_cons]
  omega

inductive PairedEqual : List uint256 → Prop where
  | here {leaves : List uint256} {i : Nat} {a : uint256} (first : leaves[2 * i]? = some a) (second : leaves[2 * i + 1]? = some a) :
    PairedEqual leaves
  | above {leaves : List uint256} (more : 1 < leaves.length) (next : PairedEqual (nextLevel hash2 leaves)) : PairedEqual leaves

def Collides (leaves : List uint256) : Prop :=
  ∃ p ∈ hashedPairs hash2 leaves, ∃ q ∈ hashedPairs hash2 leaves, p ≠ q ∧ hash2 p.1 p.2 = hash2 q.1 q.2

end Definitions

variable {hash2 : uint256 → uint256 → uint256}

theorem getElem?_nextLevel (leaves : List uint256) (i : Nat) :
    (nextLevel hash2 leaves)[i]? = leaves[2 * i]?.map fun a => hash2 a (leaves[2 * i + 1]?.getD a) := by
  induction leaves using nextLevel.induct generalizing i with
  | case1 => rfl
  | case2 a =>
    cases i with
    | zero => rfl
    | succ i =>
      have past : 2 * (i + 1) = 2 * i + 1 + 1 := by omega
      rw [past]
      rfl
  | case3 a b rest ih =>
    cases i with
    | zero => rfl
    | succ i =>
      have past : 2 * (i + 1) = 2 * i + 1 + 1 := by omega
      rw [nextLevel, List.getElem?_cons_succ, ih, past]
      rfl

variable {leaves : List uint256} {i p : Nat}

theorem row_leaf (there : leaves[i]? = some a) : (row leaves).leaf i = a := by
  change leaves.getD i 0 = a
  rw [List.getD_eq_getElem?_getD, there]
  rfl

theorem getElem?_row (inside : i < leaves.length) : leaves[i]? = some ((row leaves).leaf i) := by
  have there := List.getElem?_eq_getElem inside
  rw [there, row_leaf there]

theorem nextLevel_leaf (inside : i < (row (nextLevel hash2 leaves)).size) :
    (row (nextLevel hash2 leaves)).leaf i = (row leaves).node hash2 1 i := by
  have size : (row (nextLevel hash2 leaves)).size = (leaves.length + 1) / 2 := length_nextLevel hash2 leaves
  have left := getElem?_row (show 2 * i < leaves.length by omega)
  have next : (nextLevel hash2 leaves)[i]? = _ := getElem?_nextLevel leaves i
  rw [left, Option.map_some] at next
  rw [row_leaf next, PaddedTree.Row.node_succ, PaddedTree.Row.right, Nat.pow_zero, Nat.mul_one]
  by_cases more : 2 * i + 1 < leaves.length
  · rw [if_pos (show 2 * i + 1 < (row leaves).size from more), getElem?_row more]
    rfl
  · rw [if_neg (show ¬2 * i + 1 < (row leaves).size from more), List.getElem?_eq_none (by omega)]
    rfl

theorem nextLevel_node (inside : i * 2 ^ k < (row (nextLevel hash2 leaves)).size) :
    (row (nextLevel hash2 leaves)).node hash2 k i = (row leaves).node hash2 (k + 1) i :=
  PaddedTree.Row.node_raised (length_nextLevel hash2 leaves) (fun _ inside => nextLevel_leaf inside) inside

theorem rootByLevels_eq (nonempty : leaves ≠ []) :
    rootByLevels hash2 leaves = (row leaves).node hash2 (Nat.clog 2 leaves.length) 0 := by
  induction leaves using rootByLevels.induct hash2 with
  | case1 => exact absurd rfl nonempty
  | case2 a =>
    rw [rootByLevels]
    rfl
  | case3 a b rest ih =>
    have length := length_nextLevel hash2 (a :: b :: rest)
    have two : 2 ≤ (a :: b :: rest).length := by simp
    have some_ : nextLevel hash2 (a :: b :: rest) ≠ [] := List.ne_nil_of_length_pos (by omega)
    have height : Nat.clog 2 (a :: b :: rest).length = Nat.clog 2 (nextLevel hash2 (a :: b :: rest)).length + 1 := by
      rw [Nat.clog_of_two_le (by omega) two, length]
      rfl
    rw [rootByLevels, ih some_, nextLevel_node (by rw [Nat.zero_mul]; exact List.length_pos_of_ne_nil some_), height]

theorem pairedEqual_iff (leaves : List uint256) : PairedEqual hash2 leaves ↔ (row leaves).PresentTwins hash2 := by
  constructor
  · intro paired
    induction paired with
    | @here leaves i a first second =>
      have inside : 2 * i + 1 < leaves.length := (List.getElem?_eq_some_iff.mp second).1
      refine ⟨0, i, by rw [Nat.pow_zero, Nat.mul_one]; exact inside, ?_⟩
      change (row leaves).leaf _ = (row leaves).leaf _
      rw [row_leaf first, row_leaf second]
    | @above leaves more _ ih =>
      obtain ⟨k, i, inside, same⟩ := ih
      have positive : 0 < 2 ^ k := Nat.two_pow_pos k
      have size : (row (nextLevel hash2 leaves)).size = (leaves.length + 1) / 2 := length_nextLevel hash2 leaves
      have next : (2 * i + 1) * 2 ^ k = 2 * i * 2 ^ k + 2 ^ k := by ring
      have double : (2 * i + 1) * 2 ^ (k + 1) = 2 * ((2 * i + 1) * 2 ^ k) := by ring
      rw [nextLevel_node (by omega), nextLevel_node inside] at same
      refine ⟨k + 1, i, ?_, same⟩
      change _ < leaves.length
      omega
  · rintro ⟨k, i, inside, same⟩
    induction k generalizing leaves with
    | zero =>
      rw [Nat.pow_zero, Nat.mul_one] at inside
      change _ < leaves.length at inside
      have first := getElem?_row (show 2 * i < leaves.length by omega)
      have second := getElem?_row inside
      have equal : (row leaves).leaf (2 * i) = (row leaves).leaf (2 * i + 1) := same
      exact .here first (by rw [second, equal])
    | succ k ih =>
      have positive : 0 < 2 ^ k := Nat.two_pow_pos k
      have size : (row (nextLevel hash2 leaves)).size = (leaves.length + 1) / 2 := length_nextLevel hash2 leaves
      have next : (2 * i + 1) * 2 ^ k = 2 * i * 2 ^ k + 2 ^ k := by ring
      have double : (2 * i + 1) * 2 ^ (k + 1) = 2 * ((2 * i + 1) * 2 ^ k) := by ring
      change _ < leaves.length at inside
      refine .above (by omega) (ih _ (by omega) ?_)
      rw [nextLevel_node (by omega), nextLevel_node (by omega)]
      exact same

section Branch

variable {r : PaddedTree.Row uint256} {p : Nat} {s : State}

/-- While the leaves are processed, the level of the complete subtree with the matching leaf is known and the branch goes up to it. -/
structure Matching (hash2 : uint256 → uint256 → uint256) (r : PaddedTree.Row uint256) (p : Nat) (s : State) : Prop where
  found : ∀ level, s.matchlevel = some level →
    s.count / 2 ^ level = p / 2 ^ level + 1 ∧ p / 2 ^ level % 2 = 0 ∧ s.branch = r.siblings hash2 level p
  before : s.matchlevel = none → s.count ≤ p ∧ s.branch = []

theorem joined_above (here : m / 2 ^ i = p / 2 ^ i + 1) (even : p / 2 ^ i % 2 = 0) (later : i < j) : m / 2 ^ j = p / 2 ^ j := by
  obtain ⟨d, rfl⟩ : ∃ d, j = i + 1 + d := ⟨j - (i + 1), by omega⟩
  have split : ∀ x, x / 2 ^ (i + 1 + d) = x / 2 ^ i / 2 / 2 ^ d := fun x => by
    rw [Nat.pow_add, Nat.pow_succ, Nat.div_div_eq_div_mul, Nat.div_div_eq_div_mul, Nat.mul_assoc]
  have half : (p / 2 ^ i + 1) / 2 = p / 2 ^ i / 2 := by omega
  rw [split, split, here, half]

variable {level count : Nat} {c : Carry}

theorem Matching.level_iff (matching : Matching hash2 r p s) :
    s.matchlevel = some level ↔ s.count / 2 ^ level = p / 2 ^ level + 1 ∧ p / 2 ^ level % 2 = 0 := by
  constructor
  · intro here
    exact ⟨(matching.found level here).1, (matching.found level here).2.1⟩
  · rintro ⟨quotient, even⟩
    cases known : s.matchlevel with
    | none =>
      have le := Nat.div_le_div_right (c := 2 ^ level) (matching.before known).1
      omega
    | some level' =>
      obtain ⟨quotient', even', -⟩ := matching.found level' known
      rcases Nat.lt_trichotomy level level' with below | rfl | above
      · have joined := joined_above quotient even below
        omega
      · rfl
      · have joined := joined_above quotient' even' above
        omega

/-- The carried subtree, number `q` of its level, has the matching leaf or not. If it does the branch goes up to it, otherwise the
branch is what it was. -/
def MatchCarry (hash2 : uint256 → uint256 → uint256) (r : PaddedTree.Row uint256) (p : Nat) (s : State) (level q : Nat) (matchh : Bool)
    (branch : List uint256) : Prop :=
  (matchh = true ↔ p / 2 ^ level = q) ∧ (matchh = true → branch = r.siblings hash2 level p) ∧ (matchh = false → branch = s.branch)

theorem half_eq (p level : Nat) : p / 2 ^ (level + 1) = p / 2 ^ level / 2 := by rw [Nat.pow_succ, Nat.div_div_eq_div_mul]

theorem matchCarry_next (matching : Matching hash2 r p s) (stored : s.inner level = r.node hash2 level (2 * i))
    (quotient : s.count / 2 ^ level = 2 * i + 1) (hash : c.h = r.node hash2 level (2 * i + 1))
    (inside : (2 * i + 1) * 2 ^ level < r.size) (carry : MatchCarry hash2 r p s level (2 * i + 1) c.matchh c.branch) :
    MatchCarry hash2 r p s (level + 1) i (combineLevel hash2 s.inner s.matchlevel level c).matchh
      (combineLevel hash2 s.inner s.matchlevel level c).branch := by
  obtain ⟨iff, mine, others⟩ := carry
  have half := half_eq p level
  have left : s.matchlevel = some level ↔ p / 2 ^ level = 2 * i := by
    rw [matching.level_iff, quotient]
    omega
  unfold combineLevel MatchCarry
  dsimp only
  cases matchh : c.matchh with
  | true =>
    have right_ := iff.mp matchh
    refine ⟨iff_of_true rfl (by omega), fun _ => ?_, fun impossible => by cases impossible⟩
    rw [if_pos rfl, mine matchh, PaddedTree.Row.siblings_succ, PaddedTree.Row.sibling, if_neg (by omega), right_, Nat.add_sub_cancel, stored]
  | false =>
    have not_right : p / 2 ^ level ≠ 2 * i + 1 := fun same => by
      rw [iff.mpr same] at matchh
      cases matchh
    rw [if_neg Bool.false_ne_true]
    by_cases here : s.matchlevel = some level
    · have at_ := left.mp here
      refine ⟨iff_of_true (by rw [here]; simp) (by omega), fun _ => ?_, fun impossible => by rw [here] at impossible; simp at impossible⟩
      have sibling : r.sibling hash2 level p = c.h := by
        rw [PaddedTree.Row.sibling, if_pos (by omega), at_, Nat.mul_div_cancel_left i (by omega), PaddedTree.Row.right, if_pos inside, hash]
      rw [if_pos here, others matchh, (matching.found level here).2.2, PaddedTree.Row.siblings_succ, sibling]
    · have unmatched : (s.matchlevel == some level) = false := by simpa using here
      refine ⟨iff_of_false (by rw [unmatched]; decide) (fun same => here (left.mpr (by omega))), fun impossible => ?_, fun _ => ?_⟩
      · rw [unmatched] at impossible
        cases impossible
      · rw [if_neg here]
        exact others matchh

theorem odd_of_zero (multiple : count = (q + 1) * 2 ^ level) (zero : count.testBit level = false) :
    ∃ i, q = 2 * i + 1 ∧ count = (i + 1) * 2 ^ (level + 1) := by
  have even : ¬q % 2 = 0 := by
    rw [← testBit_multiple (j := level), ← multiple, zero]
    simp
  obtain ⟨i, rfl⟩ : ∃ i, q = 2 * i + 1 := ⟨q / 2, by omega⟩
  exact ⟨i, rfl, by rw [multiple]; ring⟩

theorem matching_start : Matching hash2 r p {} where
  found level impossible := by cases impossible
  before _ := ⟨Nat.zero_le p, rfl⟩

def CarriesMatch (hash2 : uint256 → uint256 → uint256) (r : PaddedTree.Row uint256) (p : Nat) (s : State) (level : Nat) (c : Carry) : Prop :=
  ∃ q, s.count + 1 = (q + 1) * 2 ^ level ∧ c.h = r.node hash2 level q ∧ MatchCarry hash2 r p s level q c.matchh c.branch

theorem carriesMatch_start (matching : Matching hash2 r p s) :
    CarriesMatch hash2 r p s 0
      { h := r.leaf s.count, matchh := s.count == p, branch := s.branch, mutated := s.mutated } := by
  refine ⟨s.count, by simp, rfl, ?_, fun same => ?_, fun _ => rfl⟩
  · rw [Nat.pow_zero, Nat.div_one, beq_iff_eq]
    exact eq_comm
  · have here : s.count = p := beq_iff_eq.mp same
    have unmatched : s.matchlevel = none := by
      cases known : s.matchlevel with
      | none => rfl
      | some level =>
        have quotient := (matching.found level known).1
        rw [here] at quotient
        omega
    exact (matching.before unmatched).2

theorem carriesMatch_next (done : Processed hash2 r s) (inside : s.count < r.size)
    (matching : Matching hash2 r p s) (zero : (s.count + 1).testBit level = false)
    (carries : CarriesMatch hash2 r p s level c) :
    CarriesMatch hash2 r p s (level + 1) (combineLevel hash2 s.inner s.matchlevel level c) := by
  obtain ⟨q, multiple, hash, carry⟩ := carries
  obtain ⟨i, rfl, next⟩ := odd_of_zero multiple zero
  have positive : 0 < 2 ^ level := Nat.two_pow_pos level
  have split : (2 * i + 1 + 1) * 2 ^ level = (2 * i + 1) * 2 ^ level + 2 ^ level := by ring
  have quotient : s.count / 2 ^ level = 2 * i + 1 := by
    rw [Nat.div_eq_iff positive]
    omega
  have stored := done.inner level (2 * i) quotient (by omega)
  have within : (2 * i + 1) * 2 ^ level < r.size := by omega
  refine ⟨i, next, ?_, matchCarry_next matching stored quotient hash within carry⟩
  rw [PaddedTree.Row.node_full hash2 within, ← stored, ← hash]
  rfl

theorem addLeaf_matching (done : Processed hash2 r s) (inside : s.count < r.size) (small : r.size ≤ 2 ^ 31) (matching : Matching hash2 r p s) :
    Matching hash2 r p (addLeaf hash2 p s (r.leaf s.count)) := by
  have bit : ∃ l, 0 ≤ l ∧ l < 0 + 32 ∧ (s.count + 1).testBit l = true := by
    have found := exists_bit (p := s.count) (j := 0) (by omega)
    rwa [Nat.pow_zero, Nat.mul_one] at found
  obtain ⟨set, q, multiple, -, iff, mine, others⟩ := combineLevels_invariant s.inner s.matchlevel (CarriesMatch hash2 r p s)
    (fun _ _ zero carries => carriesMatch_next done inside matching zero carries) bit (carriesMatch_start matching)
  unfold addLeaf
  dsimp only
  generalize combineLevels hash2 s.inner s.matchlevel (s.count + 1) 32 0 _ = up at set multiple iff mine others ⊢
  have odd : q % 2 = 0 := by rwa [multiple, testBit_multiple] at set
  have positive : 0 < 2 ^ up.1 := Nat.two_pow_pos up.1
  have split : (q + 1) * 2 ^ up.1 = q * 2 ^ up.1 + 2 ^ up.1 := by ring
  have index : s.count / 2 ^ up.1 = q := by
    rw [Nat.div_eq_iff positive]
    omega
  cases matchh : up.2.matchh with
  | true =>
    have mine_ := iff.mp matchh
    constructor
    · intro level here
      rw [if_pos rfl] at here
      obtain rfl := Option.some.inj here
      dsimp only
      refine ⟨?_, by rw [mine_]; exact odd, mine matchh⟩
      rw [multiple, Nat.mul_div_cancel _ positive, mine_]
    · intro impossible
      rw [if_pos rfl] at impossible
      cases impossible
  | false =>
    have elsewhere : p / 2 ^ up.1 ≠ q := fun same => by
      rw [iff.mpr same] at matchh
      cases matchh
    constructor
    · intro level here
      rw [if_neg Bool.false_ne_true] at here
      obtain ⟨quotient, even, branch⟩ := matching.found level here
      refine ⟨?_, even, (others matchh).trans branch⟩
      -- The subtree with the position becomes part of a higher one only when that one is carried.
      have apart : ¬2 ^ level ∣ s.count + 1 := by
        intro divides
        have quotient' := Nat.succ_div_of_dvd divides
        obtain ⟨d, exact_⟩ := divides
        rw [exact_, Nat.mul_div_cancel_left d (Nat.two_pow_pos level), quotient] at quotient'
        obtain ⟨a, rfl⟩ : ∃ a, d = 2 * a := ⟨d / 2, by omega⟩
        rcases Nat.lt_or_ge level up.1 with above | below
        · exact elsewhere ((joined_above quotient even above).symm.trans index)
        · have := even_of_multiple (multiple.symm.trans (exact_.trans (Nat.mul_comm _ _))) below
          omega
      dsimp only
      rw [Nat.succ_div_of_not_dvd apart, quotient]
    · intro unmatched
      rw [if_neg Bool.false_ne_true] at unmatched
      obtain ⟨early, branch⟩ := matching.before unmatched
      have later : s.count ≠ p := fun same => elsewhere (same ▸ index)
      exact ⟨Nat.lt_of_le_of_ne early later, (others matchh).trans branch⟩

def SweepMatch (hash2 : uint256 → uint256 → uint256) (r : PaddedTree.Row uint256) (p : Nat) (s : State) (count level : Nat) (matchh : Bool)
    (branch : List uint256) : Prop :=
  ∃ q, count = (q + 1) * 2 ^ level ∧ MatchCarry hash2 r p s level q matchh branch

theorem sweepMatch_enter (matching : Matching hash2 r p s) (last : LastNode hash2 r s.count level c)
    (set : s.count.testBit level = true) :
    SweepMatch hash2 r p s s.count level (s.matchlevel == some level) s.branch := by
  obtain ⟨q, multiple, -⟩ := last
  have odd : q % 2 = 0 := by rwa [multiple, testBit_multiple] at set
  have quotient : s.count / 2 ^ level = q + 1 := by rw [multiple, Nat.mul_div_cancel _ (Nat.two_pow_pos level)]
  refine ⟨q, multiple, ?_, fun here => ?_, fun _ => rfl⟩
  · rw [beq_iff_eq, matching.level_iff, quotient]
    omega
  · exact (matching.found level (beq_iff_eq.mp here)).2.2

theorem sweepMatch_double (within : p < r.size) (last : LastNode hash2 r count level c)
    (covers : r.size ≤ count) (set : count.testBit level = true)
    (swept : SweepMatch hash2 r p s count level c.matchh c.branch) :
    SweepMatch hash2 r p s (count + 2 ^ level) (level + 1) c.matchh (if c.matchh then c.branch ++ [c.h] else c.branch) := by
  obtain ⟨q, multiple, hash, -⟩ := last
  obtain ⟨q', multiple', iff, mine, others⟩ := swept
  have positive : 0 < 2 ^ level := Nat.two_pow_pos level
  have same := Nat.eq_of_mul_eq_mul_right positive (multiple'.symm.trans multiple)
  obtain rfl : q' = q := by omega
  have odd : q' % 2 = 0 := by rwa [multiple, testBit_multiple] at set
  obtain ⟨i, rfl⟩ : ∃ i, q' = 2 * i := ⟨q' / 2, by omega⟩
  have below : p / 2 ^ level < 2 * i + 1 := by
    rw [Nat.div_lt_iff_lt_mul positive]
    omega
  have half := half_eq p level
  refine ⟨i, by rw [multiple]; ring, ?_, fun matchh => ?_, fun matchh => ?_⟩
  · rw [iff, half]
    omega
  · have at_ := iff.mp matchh
    have sibling : r.sibling hash2 level p = c.h := by
      rw [PaddedTree.Row.sibling, if_pos (by omega), at_, Nat.mul_div_cancel_left i (by omega), PaddedTree.Row.right, if_neg (by omega), hash]
    rw [if_pos matchh, mine matchh, PaddedTree.Row.siblings_succ, sibling]
  · rw [matchh, if_neg Bool.false_ne_true]
    exact others matchh

theorem sweepMatch_combine (done : Processed hash2 r s) (all : s.count = r.size)
    (matching : Matching hash2 r p s) (last : LastNode hash2 r count level c) (past : r.size < count)
    (zero : count.testBit level = false) (swept : SweepMatch hash2 r p s count level c.matchh c.branch) :
    SweepMatch hash2 r p s count (level + 1) (combineLevel hash2 s.inner s.matchlevel level c).matchh
      (combineLevel hash2 s.inner s.matchlevel level c).branch := by
  obtain ⟨q, multiple, hash, holds, -⟩ := last
  obtain ⟨q', multiple', carry⟩ := swept
  have positive : 0 < 2 ^ level := Nat.two_pow_pos level
  have same := Nat.eq_of_mul_eq_mul_right positive (multiple'.symm.trans multiple)
  obtain rfl : q' = q := by omega
  obtain ⟨i, rfl, next⟩ := odd_of_zero multiple zero
  have split : (2 * i + 1 + 1) * 2 ^ level = (2 * i + 1) * 2 ^ level + 2 ^ level := by ring
  have quotient : s.count / 2 ^ level = 2 * i + 1 := by
    rw [all, Nat.div_eq_iff positive]
    omega
  exact ⟨i, next, matchCarry_next matching (done.inner level (2 * i) quotient (by omega)) quotient hash holds carry⟩

end Branch

theorem pos_lt_clog (inside : p < n) : p / 2 ^ Nat.clog 2 n = 0 :=
  Nat.div_eq_of_lt (Nat.lt_of_lt_of_le inside (Nat.le_pow_clog (by omega) n))

theorem computeMerkleBranch_eq (small : leaves.length ≤ 2 ^ 31) (inside : p < leaves.length) :
    computeMerkleBranch hash2 leaves p = some ((row leaves).siblings hash2 (Nat.clog 2 leaves.length) p) := by
  have nonempty : leaves ≠ [] := List.ne_nil_of_length_pos (by omega)
  have within : p < (row leaves).size := inside
  obtain ⟨s, c, computed, -, -, q, multiple, iff, mine, -⟩ := merkleComputation_spec hash2 nonempty small p (Matching hash2 (row leaves) p)
    (SweepMatch hash2 (row leaves) p) matching_start (fun _ done inside matching => addLeaf_matching done inside small matching)
    (fun _ _ _ matching last set => sweepMatch_enter matching last set)
    (fun _ _ _ _ _ last covers set swept => sweepMatch_double within last covers set swept)
    (fun _ _ _ _ matching done all last past zero swept => sweepMatch_combine done all matching last past zero swept)
  have one : (q + 1) * 2 ^ Nat.clog 2 leaves.length = 1 * 2 ^ Nat.clog 2 leaves.length := by rw [← multiple, Nat.one_mul]
  have top := Nat.eq_of_mul_eq_mul_right (Nat.two_pow_pos _) one
  obtain rfl : q = 0 := by omega
  rw [computeMerkleBranch, computed, Option.map_some, mine (iff.mpr (pos_lt_clog inside))]

theorem computeMerkleRootFromBranch_siblings {r : PaddedTree.Row uint256} (inside : p < r.size)
    (height level : Nat) :
    computeMerkleRootFromBranch hash2 (r.node hash2 level (p / 2 ^ level)) ((List.range' level height).map fun k => r.sibling hash2 k p)
      (p / 2 ^ level) = r.node hash2 (level + height) (p / 2 ^ (level + height)) := by
  induction height generalizing level with
  | zero => rfl
  | succ height ih =>
    have higher : level + (height + 1) = level + 1 + height := by omega
    rw [List.range'_succ, List.map_cons, computeMerkleRootFromBranch, ← PaddedTree.Row.node_sibling inside, ← half_eq, ih, higher]

theorem computeMerkleRootFromBranch_eq (inside : p < leaves.length) :
    computeMerkleRootFromBranch hash2 (leaves.get ⟨p, inside⟩) ((row leaves).siblings hash2 (Nat.clog 2 leaves.length) p) p =
      (row leaves).node hash2 (Nat.clog 2 leaves.length) 0 := by
  have climbed : computeMerkleRootFromBranch hash2 ((row leaves).node hash2 0 (p / 2 ^ 0)) _ _ = _ :=
    computeMerkleRootFromBranch_siblings (r := row leaves) inside (Nat.clog 2 leaves.length) 0
  have leaf : (row leaves).node hash2 0 p = leaves.get ⟨p, inside⟩ := row_leaf (List.getElem?_eq_getElem inside)
  rwa [Nat.pow_zero, Nat.div_one, leaf, Nat.zero_add, pos_lt_clog inside, ← List.range_eq_range'] at climbed

theorem present_or_collides (present : (row leaves).PresentTwins hash2) :
    (row leaves).Twins hash2 (row leaves).size ∨ Collides hash2 leaves := by
  by_cases injective : Set.InjOn (Function.uncurry hash2) (hashedPairs hash2 leaves)
  · exact Or.inl ((PaddedTree.Row.presentTwins_iff injective (Nat.le_pow_clog (by omega) leaves.length)).mp present)
  · right
    unfold Set.InjOn at injective
    push Not at injective
    obtain ⟨a, hashed, b, hashed', same, different⟩ := injective
    exact ⟨a, hashed, b, hashed', different, same⟩

/-- The computation in constant space gives the root that the levels give, the branch of every position leads to it, and it reports
a mutation only where two hashes that are paired are equal. -/
theorem merkle_by_levels (hash2 : uint256 → uint256 → uint256) (leaves : List uint256) (fewer : leaves.length < 2 ^ 31) :
    ∃ mutated, computeMerkleRoot hash2 leaves = some (rootByLevels hash2 leaves, mutated) ∧
      (mutated = true → PairedEqual hash2 leaves) ∧ (PairedEqual hash2 leaves → mutated = true ∨ Collides hash2 leaves) ∧
      ∀ p (inside : p < leaves.length), ∃ branch, computeMerkleBranch hash2 leaves p = some branch ∧
        computeMerkleRootFromBranch hash2 (leaves.get ⟨p, inside⟩) branch p = rootByLevels hash2 leaves := by
  by_cases empty : leaves = []
  · subst empty
    have plain : ¬PairedEqual hash2 [] := fun paired => by
      obtain ⟨k, i, inside, -⟩ := (pairedEqual_iff _).mp paired
      cases inside
    refine ⟨false, ?_, ?_, fun paired => absurd paired plain, ?_⟩
    · rw [rootByLevels]
      rfl
    · intro impossible
      cases impossible
    · intro p inside
      cases inside
  · have root : rootByLevels hash2 leaves = _ := rootByLevels_eq empty
    obtain ⟨s, c, computed, top, flag, -⟩ := merkleComputation_spec hash2 empty (Nat.le_of_lt fewer) (2 ^ 32 - 1) (fun _ => True)
      (fun _ _ _ _ _ => True) trivial (fun _ _ _ _ => trivial) (fun _ _ _ _ _ _ => trivial) (fun _ _ _ _ _ _ _ _ _ => trivial)
      (fun _ _ _ _ _ _ _ _ _ _ _ => trivial)
    refine ⟨c.mutated, by rw [computeMerkleRoot, computed, root, ← top]; rfl, fun mutated => ?_, fun paired => ?_, fun p inside => ?_⟩
    · exact (pairedEqual_iff leaves).mpr (flag.mp mutated).present
    · exact (present_or_collides ((pairedEqual_iff leaves).mp paired)).imp_left flag.mpr
    · exact ⟨_, computeMerkleBranch_eq (Nat.le_of_lt fewer) inside, by rw [computeMerkleRootFromBranch_eq inside, root]⟩

theorem merkle_by_levels_three : ∃ branch, computeMerkleBranch threeLeavesHash [1, 2, 3] 2 = some branch ∧
    computeMerkleRootFromBranch threeLeavesHash 3 branch 2 = rootByLevels threeLeavesHash [1, 2, 3] := by
  obtain ⟨_, -, -, -, branches⟩ := merkle_by_levels threeLeavesHash [1, 2, 3] (by decide)
  exact branches 2 (by decide)

end Merkle

end SchillingCoin
