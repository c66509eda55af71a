import Mathlib.Data.List.Nodup
import SchillingCoin.Consensus.MerkleBlock

/-!
Where in a block the matches of a partial merkle tree stand.
-/

namespace SchillingCoin

namespace CPartialMerkleTree

open PaddedTree.Row (descend)

def matchedLeaves (tree : CPartialMerkleTree) : Nat → Nat → Nat → List Nat × Nat
  | 0, pos, nBitsUsed => (if tree.vBits[nBitsUsed]? = some true then [pos] else [], nBitsUsed + 1)
  | height + 1, pos, nBitsUsed =>
    if tree.vBits[nBitsUsed]? = some true then
      let left := matchedLeaves tree height (pos * 2) (nBitsUsed + 1)
      if pos * 2 + 1 < calcTreeWidth tree.nTransactions height then
        let right := matchedLeaves tree height (pos * 2 + 1) left.2
        (left.1 ++ right.1, right.2)
      else left
    else ([], nBitsUsed + 1)

def matched (tree : CPartialMerkleTree) : List Nat := (tree.matchedLeaves tree.nHeight 0 0).1

/-- The node of the block's tree that a position is at, when the tree is not taller than the block's. It depends on the number of
transactions alone. -/
def blockPlace (tree : CPartialMerkleTree) (vTxid : List uint256) (pos : Nat) : Nat :=
  let height := Nat.clog 2 vTxid.length
  (Merkle.row vTxid).follow (height - tree.nHeight) (min height tree.nHeight) (pos / 2 ^ (tree.nHeight - height)) 0

/-- What a position stands for in the block. -/
def standsFor (hash2 : uint256 → uint256 → uint256) (halves : uint256 → uint256 × uint256) (tree : CPartialMerkleTree)
    (vTxid : List uint256) (pos : Nat) : uint256 :=
  let height := Nat.clog 2 vTxid.length
  descend halves (tree.nHeight - height) pos ((Merkle.row vTxid).node hash2 (height - tree.nHeight) (tree.blockPlace vTxid pos))

section Places

variable {hash2 : uint256 → uint256 → uint256} {halves : uint256 → uint256 × uint256} {vTxid : List uint256}

theorem matchedLeaves_below (tree : CPartialMerkleTree) (member : p ∈ (tree.matchedLeaves height pos nBitsUsed).1) :
    p / 2 ^ height = pos := by
  induction height generalizing pos nBitsUsed with
  | zero =>
    rw [matchedLeaves] at member
    split at member
    · rw [Nat.pow_zero, Nat.div_one]
      exact List.mem_singleton.mp member
    · cases member
  | succ height ih =>
    have half : ∀ {child}, p / 2 ^ height = child → p / 2 ^ (height + 1) = child / 2 := by
      rintro child rfl
      rw [Nat.pow_succ, Nat.div_div_eq_div_mul]
    simp only [matchedLeaves] at member
    split at member
    · split at member
      · rcases List.mem_append.mp member with left | right
        · rw [half (ih left)]
          omega
        · rw [half (ih right)]
          omega
      · rw [half (ih member)]
        omega
    · cases member

theorem useHash_bits (tree : CPartialMerkleTree) (fMatched : Bool) (s : Extraction) :
    (tree.useHash fMatched s).2.nBitsUsed = s.nBitsUsed := by
  unfold useHash
  split <;> rfl

theorem descend_child (inside : p / 2 ^ height = child) (x : uint256) :
    descend halves (height + 1) p x = descend halves height p (if child % 2 = 1 then (halves x).2 else (halves x).1) := by
  rw [descend]
  simp only [Merkle.testBit_iff, inside]

theorem extract_descends {tree : CPartialMerkleTree} (inverse : Set.LeftInvOn halves (Function.uncurry hash2) pairs)
    (good : (tree.traverseAndExtract hash2 height pos s).2.fBad = false)
    (logged : ∀ p ∈ (tree.traverseAndExtract hash2 height pos s).2.hashed, p ∈ pairs) :
    (tree.traverseAndExtract hash2 height pos s).2.vMatch = s.vMatch ++ (tree.matchedLeaves height pos s.nBitsUsed).1.map
        (fun p => descend halves height p (tree.traverseAndExtract hash2 height pos s).1) ∧
      (tree.traverseAndExtract hash2 height pos s).2.nBitsUsed = (tree.matchedLeaves height pos s.nBitsUsed).2 := by
  induction height generalizing pos s with
  | zero =>
    simp only [traverseAndExtract, matchedLeaves] at good ⊢
    cases bit : tree.vBits[s.nBitsUsed]? with
    | none =>
      rw [bit] at good
      cases good
    | some b =>
      simp only [bit] at good ⊢
      obtain ⟨_, _, matched⟩ := useHash_grows good
      refine ⟨?_, useHash_bits tree b _⟩
      rw [matched]
      cases b <;> rfl
  | succ height ih =>
    simp only [traverseAndExtract, matchedLeaves] at good logged ⊢
    rcases bit : tree.vBits[s.nBitsUsed]? with _ | _ | _
    · rw [bit] at good
      cases good
    · simp only [bit] at good ⊢
      obtain ⟨_, _, matched⟩ := useHash_grows good
      exact ⟨matched, useHash_bits tree false _⟩
    · simp only [bit] at good logged ⊢
      have parted := inverse (logged _ (List.mem_append_right _ List.mem_cons_self))
      simp only [Function.uncurry] at parted
      by_cases full : pos * 2 + 1 < calcTreeWidth tree.nTransactions height
      · simp only [if_pos full] at good logged parted ⊢
        have loggedRight := fun p member => logged p (List.mem_append_left _ member)
        obtain ⟨goodLeft, grows⟩ := extract_grows _ _ _ _ good
        obtain ⟨first, used⟩ := ih goodLeft (fun p member => loggedRight p (grows member))
        obtain ⟨second, used'⟩ := ih good loggedRight
        rw [used] at second used'
        refine ⟨?_, used'⟩
        rw [second, first, if_pos trivial, List.map_append, List.append_assoc]
        congr 2
        · apply List.map_congr_left
          intro p member
          rw [descend_child (matchedLeaves_below tree member), parted, if_neg (by omega)]
        · apply List.map_congr_left
          intro p member
          rw [descend_child (matchedLeaves_below tree member), parted, if_pos (by omega)]
      · simp only [if_neg full] at good logged parted ⊢
        obtain ⟨first, used⟩ := ih good (fun p member => logged p (List.mem_append_left _ member))
        refine ⟨?_, used⟩
        rw [first, if_pos trivial]
        congr 1
        apply List.map_congr_left
        intro p member
        rw [descend_child (matchedLeaves_below tree member), parted, if_neg (by omega)]

theorem descend_root {tree : CPartialMerkleTree} (nonempty : vTxid ≠ [])
    (inverse : Set.LeftInvOn halves (Function.uncurry hash2) (Merkle.hashedPairs hash2 vTxid)) (pos : Nat) :
    descend halves tree.nHeight pos ((Merkle.row vTxid).node hash2 (Nat.clog 2 vTxid.length) 0) =
      tree.standsFor hash2 halves vTxid pos := by
  have positive : 0 < vTxid.length := List.length_pos_of_ne_nil nonempty
  have height : tree.nHeight = tree.nHeight - Nat.clog 2 vTxid.length + min (Nat.clog 2 vTxid.length) tree.nHeight := by omega
  have levels : Nat.clog 2 vTxid.length = Nat.clog 2 vTxid.length - tree.nHeight + min (Nat.clog 2 vTxid.length) tree.nHeight := by omega
  have turns : ∀ x, descend halves tree.nHeight pos x = descend halves (tree.nHeight - Nat.clog 2 vTxid.length) pos
      (descend halves (min (Nat.clog 2 vTxid.length) tree.nHeight) (pos / 2 ^ (tree.nHeight - Nat.clog 2 vTxid.length)) x) := by
    intro x
    rw [← PaddedTree.Row.descend_add, ← height]
  have node := PaddedTree.Row.descend_node (p := pos / 2 ^ (tree.nHeight - Nat.clog 2 vTxid.length)) (i := 0) inverse
    (Nat.le_of_eq levels.symm) (by rw [Nat.zero_mul]; exact positive)
  rw [← levels] at node
  rw [turns, node]
  rfl

theorem standsFor_eq_iff {tree : CPartialMerkleTree} (nonempty : vTxid ≠ []) (distinct : vTxid.Nodup)
    (injective : Set.InjOn (Function.uncurry hash2) (Merkle.hashedPairs hash2 vTxid)) (low : tree.nHeight ≤ Nat.clog 2 vTxid.length)
    (p q : Nat) : tree.standsFor hash2 halves vTxid p = tree.standsFor hash2 halves vTxid q ↔
      tree.blockPlace vTxid p = tree.blockPlace vTxid q := by
  have positive : 0 < vTxid.length := List.length_pos_of_ne_nil nonempty
  have flat : tree.nHeight - Nat.clog 2 vTxid.length = 0 := by omega
  have inside : ∀ pos, tree.blockPlace vTxid pos * 2 ^ (Nat.clog 2 vTxid.length - tree.nHeight) < (Merkle.row vTxid).size :=
    fun pos => PaddedTree.Row.follow_inside (by rw [Nat.zero_mul]; exact positive)
  have leaves : ∀ i < (Merkle.row vTxid).size, ∀ j < (Merkle.row vTxid).size,
      (Merkle.row vTxid).leaf i = (Merkle.row vTxid).leaf j → i = j := by
    intro i low j low' same
    simp only [Merkle.row] at low low' same
    rw [List.getD_eq_getElem _ _ low, List.getD_eq_getElem _ _ low'] at same
    exact (distinct.getElem_inj_iff).mp same
  unfold standsFor
  simp only [flat, descend]
  constructor
  · intro same
    exact PaddedTree.Row.node_injective injective leaves (by omega) (inside p) (inside q) same
  · intro same
    rw [same]

theorem matches_stand {tree : CPartialMerkleTree}
    (inverse : Set.LeftInvOn halves (Function.uncurry hash2) (Merkle.hashedPairs hash2 vTxid ∪ { p | p ∈ (tree.extraction hash2).2.hashed }))
    (nonempty : vTxid ≠ []) (computed : Merkle.computeMerkleRoot hash2 vTxid = some (root, mutated)) (nonzero : root ≠ 0)
    (extracted : tree.extractMatches hash2 = (root, found)) : found = tree.matched.map (tree.standsFor hash2 halves vTxid) := by
  obtain ⟨_, _, good, isRoot, isFound⟩ := extractMatches_nonzero nonzero extracted
  have tops := (Merkle.computeMerkleRoot_tree nonempty computed).1
  obtain ⟨shown, _⟩ := extract_descends inverse good (fun p member => Set.mem_union_right _ member)
  have isRoot' : (tree.traverseAndExtract hash2 tree.nHeight 0 { fBad := tree.fBad }).1 = root := isRoot
  rw [isRoot', tops] at shown
  rw [← isFound]
  refine shown.trans ?_
  rw [List.nil_append]
  apply List.map_congr_left
  intro p _
  exact descend_root nonempty (inverse.mono Set.subset_union_left) p

/-- For a block of different transactions and a tree with its root, the matches are different exactly when the matched positions
stand for different hashes of the block. -/
theorem matches_distinct_iff (hash2 : uint256 → uint256 → uint256) (halves : uint256 → uint256 × uint256) {vTxid : List uint256}
    (distinct : vTxid.Nodup) {bytes rest : List UInt8} {tree : CPartialMerkleTree} {root : uint256} {mutated : Bool}
    {found : List uint256} (_read : unserialize bytes = .ok (tree, rest))
    (inverse : Set.LeftInvOn halves (Function.uncurry hash2)
      (Merkle.hashedPairs hash2 vTxid ∪ { p | p ∈ (tree.extraction hash2).2.hashed }))
    (computed : Merkle.computeMerkleRoot hash2 vTxid = some (root, mutated)) (nonzero : root ≠ 0)
    (extracted : tree.extractMatches hash2 = (root, found)) :
    (found.Nodup ↔ (tree.matched.map (tree.standsFor hash2 halves vTxid)).Nodup) ∧
      (tree.nHeight ≤ Nat.clog 2 vTxid.length → (found.Nodup ↔ (tree.matched.map (tree.blockPlace vTxid)).Nodup)) := by
  have nonempty : vTxid ≠ [] := by
    rintro rfl
    have root_ : (0 : uint256) = root := congrArg Prod.fst (Option.some.inj computed)
    exact nonzero root_.symm
  have shown := matches_stand inverse nonempty computed nonzero extracted
  rw [shown]
  refine ⟨Iff.rfl, fun low => ?_⟩
  have injective := (inverse.mono Set.subset_union_left).injOn
  have same : ∀ p q, tree.standsFor hash2 halves vTxid p = tree.standsFor hash2 halves vTxid q ↔
      tree.blockPlace vTxid p = tree.blockPlace vTxid q := standsFor_eq_iff nonempty distinct injective low
  rw [List.Nodup, List.Nodup, List.pairwise_map, List.pairwise_map]
  simp only [ne_eq, same]

end Places

def copiedLeaf : CPartialMerkleTree :=
  ⟨4, unpackBits (packBits [true, false, true, true, true]), [Merkle.threeLeavesHash 1 2, 3, 3], false⟩

def threeLeavesHalves (h : uint256) : uint256 × uint256 :=
  if h = Merkle.threeLeavesHash 1 2 then (1, 2)
  else if h = Merkle.threeLeavesHash 3 3 then (3, 3)
  else (Merkle.threeLeavesHash 1 2, Merkle.threeLeavesHash 3 3)

theorem copiedLeaf_read :
    unserialize (serialize ⟨4, [true, false, true, true, true], [Merkle.threeLeavesHash 1 2, 3, 3], false⟩).bytes = .ok (copiedLeaf, []) := by
  rw [← List.append_nil (Writes.bytes _)]
  exact unserialize_reads (by decide) (by decide) (by decide) []

theorem threeLeaves_inverse (few : hashed ⊆ [(1, 2), (3, 3), (Merkle.threeLeavesHash 1 2, Merkle.threeLeavesHash 3 3)]) :
    Set.LeftInvOn threeLeavesHalves (Function.uncurry Merkle.threeLeavesHash)
      (Merkle.hashedPairs Merkle.threeLeavesHash [1, 2, 3] ∪ { p | p ∈ hashed }) := by
  have known : ∀ p, p ∈ Merkle.hashedPairs Merkle.threeLeavesHash [1, 2, 3] ∪ { p | p ∈ hashed } →
      p = (1, 2) ∨ p = (3, 3) ∨ p = (Merkle.threeLeavesHash 1 2, Merkle.threeLeavesHash 3 3) := by
    rintro p (own | extracted)
    · exact Merkle.threeLeavesHash_pairs own
    · have among := few extracted
      rwa [List.mem_cons, List.mem_cons, List.mem_singleton] at among
  intro p member
  obtain rfl | rfl | rfl := known p member
  · decide
  · decide
  · decide

theorem copiedLeaf_inverse : Set.LeftInvOn threeLeavesHalves (Function.uncurry Merkle.threeLeavesHash)
    (Merkle.hashedPairs Merkle.threeLeavesHash [1, 2, 3] ∪ { p | p ∈ (copiedLeaf.extraction Merkle.threeLeavesHash).2.hashed }) :=
  threeLeaves_inverse (by decide)

/-- The tree of the block itself with the first and the third transaction matched. -/
def ownTree : CPartialMerkleTree := ⟨3, unpackBits (packBits [true, true, true, false, true, true]), [1, 2, 3], false⟩

theorem ownTree_read : unserialize (serialize ⟨3, [true, true, true, false, true, true], [1, 2, 3], false⟩).bytes = .ok (ownTree, []) := by
  rw [← List.append_nil (Writes.bytes _)]
  exact unserialize_reads (by decide) (by decide) (by decide) []

theorem own_and_copied_places :
    (([1, 3] : List uint256).Nodup ↔ (ownTree.matched.map (ownTree.blockPlace [1, 2, 3])).Nodup) ∧
      (([3, 3] : List uint256).Nodup ↔ (copiedLeaf.matched.map (copiedLeaf.blockPlace [1, 2, 3])).Nodup) := by
  have computed : Merkle.computeMerkleRoot Merkle.threeLeavesHash [1, 2, 3] =
      some (0xe9ffb584c62449f157c8be88257bd1eebb2d8ef824f5c86b43c4f8fd9e800d6a, false) := by decide
  constructor
  · exact (matches_distinct_iff Merkle.threeLeavesHash threeLeavesHalves (by decide) ownTree_read (threeLeaves_inverse (by decide)) computed
      (by decide) (by decide)).2 (by decide)
  · exact (matches_distinct_iff Merkle.threeLeavesHash threeLeavesHalves (by decide) copiedLeaf_read copiedLeaf_inverse computed (by decide)
      (by decide)).2 (by decide)

/-- The third transaction of the block is matched twice, with the root of the block. -/
theorem copied_leaf_matches_twice : ([1, 2, 3] : List uint256).Nodup ∧
    ∃ root, Merkle.computeMerkleRoot Merkle.threeLeavesHash [1, 2, 3] = some (root, false) ∧ root ≠ 0 ∧
      unserialize (serialize ⟨4, [true, false, true, true, true], [Merkle.threeLeavesHash 1 2, 3, 3], false⟩).bytes =
        .ok (copiedLeaf, []) ∧
      Set.InjOn (Function.uncurry Merkle.threeLeavesHash) (Merkle.hashedPairs Merkle.threeLeavesHash [1, 2, 3] ∪
        { p | p ∈ (copiedLeaf.extraction Merkle.threeLeavesHash).2.hashed }) ∧
      copiedLeaf.extractMatches Merkle.threeLeavesHash = (root, [3, 3]) ∧ ¬([3, 3] : List uint256).Nodup :=
  ⟨by decide, 0xe9ffb584c62449f157c8be88257bd1eebb2d8ef824f5c86b43c4f8fd9e800d6a, by decide, by decide, copiedLeaf_read,
    copiedLeaf_inverse.injOn, by decide, by decide⟩

end CPartialMerkleTree

end SchillingCoin
