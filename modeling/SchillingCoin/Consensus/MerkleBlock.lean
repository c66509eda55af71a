import SchillingCoin.Consensus.Merkle
import SchillingCoin.Primitives.Wire

/-!
Partial merkle trees, after `merkleblock.cpp`: a tree is built for some transactions of a block, sent as bits and hashes, and
the transactions are extracted from it again.
-/

namespace SchillingCoin

open Codec DataStream

structure CPartialMerkleTree where
  nTransactions : Nat := 0
  vBits : List Bool := []
  vHash : List uint256 := []
  fBad : Bool := true
  deriving DecidableEq, Repr

/-- The state of an extraction. The pairs that were hashed are kept only for what is proved about them. -/
structure Extraction where
  nBitsUsed : Nat := 0
  nHashUsed : Nat := 0
  vMatch : List uint256 := []
  fBad : Bool := false
  hashed : List (uint256 × uint256) := []
  deriving DecidableEq, Repr

namespace CPartialMerkleTree

def calcTreeWidth (nTransactions height : Nat) : Nat := (nTransactions + 2 ^ height - 1) % 2 ^ 32 / 2 ^ height

def treeHeight (nTransactions : Nat) : Nat → Nat → Nat
  | 0, nHeight => nHeight
  | rounds + 1, nHeight => if calcTreeWidth nTransactions nHeight > 1 then treeHeight nTransactions rounds (nHeight + 1) else nHeight

def nHeight (tree : CPartialMerkleTree) : Nat := treeHeight tree.nTransactions 32 0

section Traversal

variable (hash2 : uint256 → uint256 → uint256)

def calcHash (nTransactions : Nat) (vTxid : List uint256) : Nat → Nat → uint256
  | 0, pos => vTxid.getD pos 0
  | height + 1, pos =>
    let left := calcHash nTransactions vTxid height (pos * 2)
    let right := if pos * 2 + 1 < calcTreeWidth nTransactions height then calcHash nTransactions vTxid height (pos * 2 + 1) else left
    hash2 left right

def parentOfMatch (nTransactions : Nat) (vMatch : List Bool) (height pos : Nat) : Bool :=
  (List.range (min ((pos + 1) * 2 ^ height) nTransactions - pos * 2 ^ height)).any fun i => vMatch.getD (pos * 2 ^ height + i) false

def stored (vTxid : List uint256) (height pos : Nat) (fParentOfMatch : Bool) (tree : CPartialMerkleTree) : CPartialMerkleTree :=
  { tree with
    vBits := tree.vBits ++ [fParentOfMatch]
    vHash := tree.vHash ++ [calcHash hash2 tree.nTransactions vTxid height pos] }

def traverseAndBuild (vTxid : List uint256) (vMatch : List Bool) : Nat → Nat → CPartialMerkleTree → CPartialMerkleTree
  | 0, pos, tree => stored hash2 vTxid 0 pos (parentOfMatch tree.nTransactions vMatch 0 pos) tree
  | height + 1, pos, tree =>
    if parentOfMatch tree.nTransactions vMatch (height + 1) pos then
      let left := traverseAndBuild vTxid vMatch height (pos * 2) { tree with vBits := tree.vBits ++ [true] }
      if pos * 2 + 1 < calcTreeWidth tree.nTransactions height then traverseAndBuild vTxid vMatch height (pos * 2 + 1) left
      else left
    else stored hash2 vTxid (height + 1) pos false tree

def ofTransactions (vTxid : List uint256) (vMatch : List Bool) : CPartialMerkleTree :=
  let tree : CPartialMerkleTree := { nTransactions := vTxid.length % 2 ^ 32, fBad := false }
  traverseAndBuild hash2 vTxid vMatch tree.nHeight 0 tree

variable (tree : CPartialMerkleTree)

def useHash (fMatched : Bool) (s : Extraction) : uint256 × Extraction :=
  match tree.vHash[s.nHashUsed]? with
  | none => (0, { s with fBad := true })
  | some hash =>
    (hash, { s with nHashUsed := s.nHashUsed + 1, vMatch := if fMatched then s.vMatch ++ [hash] else s.vMatch })

def traverseAndExtract (tree : CPartialMerkleTree) : Nat → Nat → Extraction → uint256 × Extraction
  | 0, _, s =>
    match tree.vBits[s.nBitsUsed]? with
    | none => (0, { s with fBad := true })
    | some fParentOfMatch => tree.useHash fParentOfMatch { s with nBitsUsed := s.nBitsUsed + 1 }
  | height + 1, pos, s =>
    match tree.vBits[s.nBitsUsed]? with
    | none => (0, { s with fBad := true })
    | some false => tree.useHash false { s with nBitsUsed := s.nBitsUsed + 1 }
    | some true =>
      let left := traverseAndExtract tree height (pos * 2) { s with nBitsUsed := s.nBitsUsed + 1 }
      let right := if pos * 2 + 1 < calcTreeWidth tree.nTransactions height then traverseAndExtract tree height (pos * 2 + 1) left.2 else left
      (hash2 left.1 right.1, { right.2 with hashed := right.2.hashed ++ [(left.1, right.1)] })

def extraction : uint256 × Extraction := tree.traverseAndExtract hash2 tree.nHeight 0 { fBad := tree.fBad }

def extractMatches : uint256 × List uint256 :=
  if tree.nTransactions = 0 then (0, [])
  else if tree.nTransactions > MAX_BLOCK_SIZE_CURRENT / 60 then (0, [])
  else if tree.vHash.length > tree.nTransactions then (0, [])
  else if tree.vBits.length < tree.vHash.length then (0, [])
  else
    let (hashMerkleRoot, s) := tree.extraction hash2
    if s.fBad then (0, s.vMatch)
    else if (s.nBitsUsed + 7) / 8 ≠ (tree.vBits.length + 7) / 8 then (0, s.vMatch)
    else if s.nHashUsed ≠ tree.vHash.length then (0, s.vMatch)
    else (hashMerkleRoot, s.vMatch)

end Traversal

def packBits (vBits : List Bool) : List UInt8 :=
  (List.range ((vBits.length + 7) / 8)).map fun i => UInt8.ofNat (Nat.ofBits fun j : Fin 8 => vBits.getD (8 * i + j) false)

def unpackBits (vBytes : List UInt8) : List Bool :=
  (List.range (vBytes.length * 8)).map fun p => (vBytes.getD (p / 8) 0).toNat.testBit (p % 8)

def serialize (tree : CPartialMerkleTree) : Writes :=
  leBytes 4 tree.nTransactions :: serializeVector (fun h => [Wire.uint256Bytes h]) tree.vHash ++ serializeBytes (packBits tree.vBits)

def unserialize : StreamReader CPartialMerkleTree := do
  let nTransactions ← readUInt 4
  let vHash ← unserializeVector 32 Wire.readUInt256
  let vBytes ← unserializeBytes
  return { nTransactions, vHash, vBits := unpackBits vBytes, fBad := false }

variable {height : Nat} {α : Type}

theorem calcTreeWidth_lt_iff {nTransactions : Nat} (small : nTransactions ≤ 2 ^ 31) (low : height ≤ 31)
    (pos : Nat) : pos < calcTreeWidth nTransactions height ↔ pos * 2 ^ height < nTransactions := by
  have power := Nat.pow_le_pow_right (show 0 < 2 by decide) low
  have positive := Nat.two_pow_pos height
  rw [calcTreeWidth, Nat.mod_eq_of_lt (by omega), Nat.lt_div_iff_mul_lt positive]
  omega

theorem treeHeight_eq {nTransactions : Nat} (small : nTransactions ≤ 2 ^ 31) (enough : 32 ≤ rounds + start)
    (low : start ≤ Nat.clog 2 nTransactions) : treeHeight nTransactions rounds start = Nat.clog 2 nTransactions := by
  have limit : Nat.clog 2 nTransactions ≤ 31 := (Nat.clog_le_iff_le_pow (by decide)).mpr small
  induction rounds generalizing start with
  | zero => omega
  | succ rounds ih =>
    unfold treeHeight
    have wide := calcTreeWidth_lt_iff small (Nat.le_trans low limit) 1
    rw [Nat.one_mul] at wide
    split
    · rename_i more
      refine ih (by omega) ?_
      exact (Nat.lt_clog_iff_pow_lt (by decide)).mpr (wide.mp more)
    · rename_i enough'
      have covers : nTransactions ≤ 2 ^ start := by
        by_contra less
        exact enough' (wide.mpr (by omega))
      exact Nat.le_antisymm low ((Nat.clog_le_iff_le_pow (by decide)).mpr covers)

def below {α : Type} (l : List α) (height pos : Nat) : List α := (l.drop (pos * 2 ^ height)).take (2 ^ height)

theorem below_succ (l : List α) (height pos : Nat) :
    below l (height + 1) pos = below l height (pos * 2) ++ below l height (pos * 2 + 1) := by
  have width : 2 ^ (height + 1) = 2 ^ height + 2 ^ height := by ring
  have start : pos * 2 ^ (height + 1) = pos * 2 * 2 ^ height := by ring
  have next : (pos * 2 + 1) * 2 ^ height = pos * 2 * 2 ^ height + 2 ^ height := by ring
  rw [below, below, below, start, next, width, List.take_add, List.drop_drop]

theorem below_outside (outside : l.length ≤ pos * 2 ^ height) : below l height pos = [] := by
  rw [below, List.drop_eq_nil_of_le outside, List.take_nil]

theorem below_leaf (inside : pos < l.length) : below l 0 pos = [l[pos]] := by
  rw [below, Nat.pow_zero, Nat.mul_one, List.drop_eq_getElem_cons inside]
  rfl

theorem below_root (covers : l.length ≤ 2 ^ height) : below l height 0 = l := by
  rw [below, Nat.zero_mul, List.drop_zero, List.take_of_length_le covers]

theorem parentOfMatch_eq (vMatch : List Bool) (height pos : Nat) :
    parentOfMatch vMatch.length vMatch height pos = (below vMatch height pos).any id := by
  have width : (pos + 1) * 2 ^ height = pos * 2 ^ height + 2 ^ height := by ring
  apply Bool.eq_iff_iff.mpr
  unfold parentOfMatch below
  rw [List.any_eq_true, List.any_eq_true]
  constructor
  · rintro ⟨i, low, matched⟩
    rw [List.mem_range, width] at low
    have inside : pos * 2 ^ height + i < vMatch.length := by omega
    rw [List.getD_eq_getElem _ _ inside] at matched
    refine ⟨true, ?_, rfl⟩
    rw [List.mem_take_iff_getElem]
    refine ⟨i, by rw [List.length_drop]; omega, ?_⟩
    rw [List.getElem_drop]
    exact matched
  · rintro ⟨b, member, isTrue⟩
    obtain ⟨i, low, isBit⟩ := List.mem_take_iff_getElem.mp member
    rw [List.length_drop] at low
    rw [List.getElem_drop] at isBit
    refine ⟨i, by rw [List.mem_range, width]; omega, ?_⟩
    rw [List.getD_eq_getElem _ _ (by omega), isBit]
    exact isTrue

section Trees

variable {hash2 : uint256 → uint256 → uint256} {vTxid : List uint256} {vMatch : List Bool}

variable {height pos : Nat} {tree : CPartialMerkleTree}

theorem calcHash_eq (small : vTxid.length ≤ 2 ^ 31) (low : height ≤ 32) (pos : Nat) :
    calcHash hash2 vTxid.length vTxid height pos = (Merkle.row vTxid).node hash2 height pos := by
  induction height generalizing pos with
  | zero => rfl
  | succ height ih =>
    have wide := calcTreeWidth_lt_iff small (show height ≤ 31 by omega) (2 * pos + 1)
    have size : (Merkle.row vTxid).size = vTxid.length := rfl
    simp only [calcHash, PaddedTree.Row.node, ih (by omega), Nat.mul_comm pos 2, size]
    by_cases full : (2 * pos + 1) * 2 ^ height < vTxid.length
    · rw [if_pos (wide.mpr full), if_pos full]
    · rw [if_neg (fun more => full (wide.mp more)), if_neg full]

def matchedBelow (vTxid : List uint256) (vMatch : List Bool) (height pos : Nat) : List uint256 :=
  (((below vTxid height pos).zip (below vMatch height pos)).filter Prod.snd).map Prod.fst

theorem matchedBelow_succ (mask : vMatch.length = vTxid.length) (height pos : Nat) : matchedBelow vTxid vMatch (height + 1) pos =
    matchedBelow vTxid vMatch height (pos * 2) ++ matchedBelow vTxid vMatch height (pos * 2 + 1) := by
  have same : (below vTxid height (pos * 2)).length = (below vMatch height (pos * 2)).length := by
    simp [below, mask]
  rw [matchedBelow, below_succ, below_succ, List.zip_append same, List.filter_append, List.map_append]
  rfl

theorem matchedBelow_unmatched (none : (below vMatch height pos).any id = false) :
    matchedBelow vTxid vMatch height pos = [] := by
  rw [matchedBelow, List.map_eq_nil_iff, List.filter_eq_nil_iff]
  intro p member matched
  have bit := (List.of_mem_zip member).2
  rw [List.any_eq_false] at none
  exact none p.2 bit matched

structure GoesOn (s s' : Extraction) (bits hashes : Nat) (matched : List uint256) : Prop where
  bits : s'.nBitsUsed = s.nBitsUsed + bits
  hashes : s'.nHashUsed = s.nHashUsed + hashes
  matched : s'.vMatch = s.vMatch ++ matched
  fBad : s'.fBad = s.fBad

/-- What the traversal of a node adds to the tree, and what it takes to extract it again. -/
structure Built (hash2 : uint256 → uint256 → uint256) (vTxid : List uint256) (vMatch : List Bool) (height pos : Nat) (bits : List Bool)
    (hashes : List uint256) : Prop where
  adds : ∀ tree : CPartialMerkleTree, tree.nTransactions = vTxid.length →
    traverseAndBuild hash2 vTxid vMatch height pos tree = { tree with vBits := tree.vBits ++ bits, vHash := tree.vHash ++ hashes }
  bitsBound : bits.length < 2 ^ (height + 1)
  hashesBound : hashes.length ≤ (below vTxid height pos).length
  enoughBits : hashes.length ≤ bits.length
  extracts : ∀ (tree : CPartialMerkleTree) (s : Extraction) (moreBits : List Bool) (moreHashes : List uint256),
    tree.nTransactions = vTxid.length → tree.vBits.drop s.nBitsUsed = bits ++ moreBits → tree.vHash.drop s.nHashUsed = hashes ++ moreHashes →
    (tree.traverseAndExtract hash2 height pos s).1 = (Merkle.row vTxid).node hash2 height pos ∧
      GoesOn s (tree.traverseAndExtract hash2 height pos s).2 bits.length hashes.length (matchedBelow vTxid vMatch height pos)

section

variable (small : vTxid.length ≤ 2 ^ 31)

include small

theorem stored_built (low : height ≤ 32) (inside : pos * 2 ^ height < vTxid.length)
    (adds : ∀ tree : CPartialMerkleTree, tree.nTransactions = vTxid.length → traverseAndBuild hash2 vTxid vMatch height pos tree = stored hash2 vTxid height pos bit tree)
    (extracts : ∀ (tree : CPartialMerkleTree) (s : Extraction), tree.vBits[s.nBitsUsed]? = some bit → tree.traverseAndExtract hash2 height pos s = tree.useHash (height == 0 && bit) { s with nBitsUsed := s.nBitsUsed + 1 })
    (matches_ : matchedBelow vTxid vMatch height pos =
      if height == 0 && bit then [(Merkle.row vTxid).node hash2 height pos] else []) :
    Built hash2 vTxid vMatch height pos [bit] [(Merkle.row vTxid).node hash2 height pos] where
  adds := by
    intro tree count
    rw [adds tree count, stored, count, calcHash_eq small low]
  bitsBound := by
    have positive := Nat.two_pow_pos height
    rw [List.length_singleton, Nat.pow_succ]
    omega
  hashesBound := by
    have positive := Nat.two_pow_pos height
    rw [List.length_singleton, below, List.length_take, List.length_drop]
    omega
  enoughBits := Nat.le_refl 1
  extracts := by
    intro tree s moreBits moreHashes count bits hashes
    have bit_ : tree.vBits[s.nBitsUsed]? = some bit := by
      rw [← List.head?_drop, bits]
      rfl
    have hash : tree.vHash[s.nHashUsed]? = some ((Merkle.row vTxid).node hash2 height pos) := by
      rw [← List.head?_drop, hashes]
      rfl
    rw [extracts tree s bit_, matches_]
    simp only [useHash, hash]
    refine ⟨trivial, rfl, rfl, ?_, rfl⟩
    split <;> simp

theorem leaf_built (mask : vMatch.length = vTxid.length) (inside : pos < vTxid.length) :
    ∃ bits hashes, Built hash2 vTxid vMatch 0 pos bits hashes := by
  refine ⟨[vMatch[pos]], _, stored_built small (by omega) (by omega) ?_ ?_ ?_⟩
  · intro tree count
    have bit : parentOfMatch tree.nTransactions vMatch 0 pos = vMatch[pos] := by
      rw [count, ← mask, parentOfMatch_eq, below_leaf (by omega)]
      simp
    rw [traverseAndBuild, bit]
  · intro tree s bit
    simp only [traverseAndExtract, bit]
    rfl
  · have node : (Merkle.row vTxid).node hash2 0 pos = vTxid[pos] := List.getD_eq_getElem _ _ inside
    rw [matchedBelow, below_leaf inside, below_leaf (show pos < vMatch.length by omega), node]
    cases vMatch[pos] <;> rfl

theorem unmatched_built (mask : vMatch.length = vTxid.length) (low : height + 1 ≤ 32)
    (inside : pos * 2 ^ (height + 1) < vTxid.length) (none : (below vMatch (height + 1) pos).any id = false) :
    ∃ bits hashes, Built hash2 vTxid vMatch (height + 1) pos bits hashes := by
  refine ⟨[false], _, stored_built small low inside ?_ ?_ ?_⟩
  · intro tree count
    rw [traverseAndBuild, count, ← mask, parentOfMatch_eq, none]
    rfl
  · intro tree s bit
    simp only [traverseAndExtract, bit]
    rfl
  · rw [matchedBelow_unmatched none]
    rfl

theorem full_built (mask : vMatch.length = vTxid.length) (low : height + 1 ≤ 32)
    (full : (pos * 2 + 1) * 2 ^ height < vTxid.length) (some_ : (below vMatch (height + 1) pos).any id = true)
    (left : Built hash2 vTxid vMatch height (pos * 2) leftBits leftHashes)
    (right : Built hash2 vTxid vMatch height (pos * 2 + 1) rightBits rightHashes) :
    Built hash2 vTxid vMatch (height + 1) pos (true :: leftBits ++ rightBits) (leftHashes ++ rightHashes) where
  adds := by
    rintro ⟨nTransactions, vBits, vHash, fBad⟩ rfl
    have wide := (calcTreeWidth_lt_iff small (show height ≤ 31 by omega) (pos * 2 + 1)).mpr full
    have matched : parentOfMatch vTxid.length vMatch (height + 1) pos = true := by
      rw [← mask, parentOfMatch_eq]
      exact some_
    simp only [traverseAndBuild, matched, if_true, wide]
    rw [left.adds _ rfl, right.adds _ rfl]
    simp [List.append_assoc]
  bitsBound := by
    have first := left.bitsBound
    have second := right.bitsBound
    rw [List.length_append, List.length_cons, Nat.pow_succ]
    omega
  hashesBound := by
    have first := left.hashesBound
    have second := right.hashesBound
    rw [below_succ, List.length_append, List.length_append]
    omega
  enoughBits := by
    have first := left.enoughBits
    have second := right.enoughBits
    rw [List.length_append, List.length_append, List.length_cons]
    omega
  extracts := by
    intro tree s moreBits moreHashes count bits hashes
    have wide : pos * 2 + 1 < calcTreeWidth tree.nTransactions height := by
      rw [count]
      exact (calcTreeWidth_lt_iff small (by omega) _).mpr full
    have bit : tree.vBits[s.nBitsUsed]? = some true := by
      rw [← List.head?_drop, bits]
      rfl
    have bits₁ : tree.vBits.drop (s.nBitsUsed + 1) = leftBits ++ (rightBits ++ moreBits) := by
      rw [← List.drop_drop, bits]
      simp
    obtain ⟨leftHash, first⟩ := left.extracts tree { s with nBitsUsed := s.nBitsUsed + 1 } (rightBits ++ moreBits)
      (rightHashes ++ moreHashes) count bits₁ (by rw [hashes, List.append_assoc])
    have hashes₁ : tree.vHash.drop s.nHashUsed = leftHashes ++ (rightHashes ++ moreHashes) := by rw [hashes, List.append_assoc]
    obtain ⟨rightHash, second⟩ := right.extracts tree _ moreBits moreHashes count
      (by rw [first.bits, ← List.drop_drop, bits₁, List.drop_left]) (by rw [first.hashes, ← List.drop_drop, hashes₁, List.drop_left])
    simp only [traverseAndExtract, bit, wide, if_true]
    refine ⟨?_, ?_, ?_, ?_, ?_⟩
    · rw [leftHash, rightHash, Nat.mul_comm pos 2]
      exact (PaddedTree.Row.node_full hash2 (by rwa [Nat.mul_comm pos 2] at full)).symm
    · rw [second.bits, first.bits, List.length_append, List.length_cons]
      dsimp only
      omega
    · rw [second.hashes, first.hashes, List.length_append, ← Nat.add_assoc]
    · rw [second.matched, first.matched, matchedBelow_succ mask, List.append_assoc]
    · rw [second.fBad, first.fBad]

theorem half_built (mask : vMatch.length = vTxid.length) (low : height + 1 ≤ 32)
    (half : vTxid.length ≤ (pos * 2 + 1) * 2 ^ height) (some_ : (below vMatch (height + 1) pos).any id = true)
    (left : Built hash2 vTxid vMatch height (pos * 2) bits hashes) :
    Built hash2 vTxid vMatch (height + 1) pos (true :: bits) hashes where
  adds := by
    rintro ⟨nTransactions, vBits, vHash, fBad⟩ rfl
    have narrow := (calcTreeWidth_lt_iff small (show height ≤ 31 by omega) (pos * 2 + 1)).not.mpr (Nat.not_lt.mpr half)
    have matched : parentOfMatch vTxid.length vMatch (height + 1) pos = true := by
      rw [← mask, parentOfMatch_eq]
      exact some_
    simp only [traverseAndBuild, matched, if_true, narrow, if_false]
    rw [left.adds _ rfl]
    simp [List.append_assoc]
  bitsBound := by
    have first := left.bitsBound
    rw [List.length_cons, Nat.pow_succ]
    omega
  hashesBound := by
    have first := left.hashesBound
    rw [below_succ, List.length_append]
    omega
  enoughBits := by
    have first := left.enoughBits
    rw [List.length_cons]
    omega
  extracts := by
    intro tree s moreBits moreHashes count isBits isHashes
    have narrow : ¬pos * 2 + 1 < calcTreeWidth tree.nTransactions height := by
      rw [count]
      exact (calcTreeWidth_lt_iff small (by omega) _).not.mpr (Nat.not_lt.mpr half)
    have bit : tree.vBits[s.nBitsUsed]? = some true := by
      rw [← List.head?_drop, isBits]
      rfl
    have isBits₁ : tree.vBits.drop (s.nBitsUsed + 1) = bits ++ moreBits := by
      rw [← List.drop_drop, isBits]
      simp
    obtain ⟨leftHash, first⟩ := left.extracts tree { s with nBitsUsed := s.nBitsUsed + 1 } moreBits moreHashes count isBits₁ isHashes
    have nothing : matchedBelow vTxid vMatch height (pos * 2 + 1) = [] := by
      rw [matchedBelow, below_outside half]
      rfl
    simp only [traverseAndExtract, bit, narrow, if_false]
    refine ⟨?_, ?_, ?_, ?_, ?_⟩
    · rw [leftHash, Nat.mul_comm pos 2]
      exact (PaddedTree.Row.node_repeated hash2 (by rwa [Nat.mul_comm pos 2] at half)).symm
    · rw [first.bits, List.length_cons]
      dsimp only
      omega
    · rw [first.hashes]
    · rw [first.matched, matchedBelow_succ mask, nothing, List.append_nil]
    · rw [first.fBad]

end

theorem built (hash2 : uint256 → uint256 → uint256) (small : vTxid.length ≤ 2 ^ 31)
    (mask : vMatch.length = vTxid.length) (low : height ≤ 32) (inside : pos * 2 ^ height < vTxid.length) :
    ∃ bits hashes, Built hash2 vTxid vMatch height pos bits hashes := by
  induction height generalizing pos with
  | zero => exact leaf_built small mask (by simpa using inside)
  | succ height ih =>
    have start : pos * 2 ^ (height + 1) = pos * 2 * 2 ^ height := by ring
    cases some_ : (below vMatch (height + 1) pos).any id with
    | false => exact unmatched_built small mask low inside some_
    | true =>
      obtain ⟨bits, hashes, left⟩ := ih (by omega) (show pos * 2 * 2 ^ height < vTxid.length by omega)
      by_cases full : (pos * 2 + 1) * 2 ^ height < vTxid.length
      · obtain ⟨bits', hashes', right⟩ := ih (by omega) full
        exact ⟨_, _, full_built small mask low full some_ left right⟩
      · exact ⟨_, _, half_built small mask low (Nat.le_of_not_lt full) some_ left⟩

theorem useHash_grows (good : (tree.useHash fMatched s).2.fBad = false) :
    (tree.useHash fMatched s).2.hashed = s.hashed ∧ s.fBad = false ∧
      (tree.useHash fMatched s).2.vMatch = s.vMatch ++ if fMatched then [(tree.useHash fMatched s).1] else [] := by
  unfold useHash at good ⊢
  cases found : tree.vHash[s.nHashUsed]? with
  | none =>
    rw [found] at good
    exact nomatch good
  | some hash =>
    rw [found] at good
    refine ⟨rfl, good, ?_⟩
    cases fMatched <;> simp

theorem extract_grows (tree : CPartialMerkleTree) (height pos : Nat) (s : Extraction)
    (good : (tree.traverseAndExtract hash2 height pos s).2.fBad = false) :
    s.fBad = false ∧ s.hashed ⊆ (tree.traverseAndExtract hash2 height pos s).2.hashed := by
  induction height generalizing pos s with
  | zero =>
    simp only [traverseAndExtract] at good ⊢
    cases bit : tree.vBits[s.nBitsUsed]? with
    | none =>
      rw [bit] at good
      exact nomatch good
    | some b =>
      simp only [bit] at good ⊢
      obtain ⟨same, before, _⟩ := useHash_grows good
      rw [same]
      exact ⟨before, List.Subset.refl _⟩
  | succ height ih =>
    simp only [traverseAndExtract] at good ⊢
    match bit : tree.vBits[s.nBitsUsed]? with
    | none =>
      rw [bit] at good
      exact nomatch good
    | some false =>
      simp only [bit] at good ⊢
      obtain ⟨same, before, _⟩ := useHash_grows good
      rw [same]
      exact ⟨before, List.Subset.refl _⟩
    | some true =>
      simp only [bit] at good ⊢
      by_cases full : pos * 2 + 1 < calcTreeWidth tree.nTransactions height
      · simp only [if_pos full] at good ⊢
        obtain ⟨goodLeft, right⟩ := ih _ _ good
        obtain ⟨before, left⟩ := ih _ _ goodLeft
        exact ⟨before, fun p member => List.mem_append_left _ (right (left member))⟩
      · simp only [if_neg full] at good ⊢
        obtain ⟨before, left⟩ := ih _ _ good
        exact ⟨before, fun p member => List.mem_append_left _ (left member)⟩

theorem extract_sound (small : vTxid.length ≤ 2 ^ 31) (count : tree.nTransactions = vTxid.length) (low : top ≤ 32)
    (injective : Set.InjOn (Function.uncurry hash2) pairs) (combined : (Merkle.row vTxid).combined hash2 top ⊆ pairs)
    (below_ : height ≤ top) (inside : pos * 2 ^ height < vTxid.length)
    (good : (tree.traverseAndExtract hash2 height pos s).2.fBad = false)
    (logged : ∀ p ∈ (tree.traverseAndExtract hash2 height pos s).2.hashed, p ∈ pairs)
    (same : (tree.traverseAndExtract hash2 height pos s).1 = (Merkle.row vTxid).node hash2 height pos) :
    ∃ found, (tree.traverseAndExtract hash2 height pos s).2.vMatch = s.vMatch ++ found ∧ found.Sublist (below vTxid height pos) := by
  induction height generalizing pos s with
  | zero =>
    rw [Nat.pow_zero, Nat.mul_one] at inside
    rw [below_leaf inside]
    have leaf : (Merkle.row vTxid).node hash2 0 pos = vTxid[pos] := List.getD_eq_getElem _ _ inside
    rw [leaf] at same
    simp only [traverseAndExtract] at good same ⊢
    cases bit : tree.vBits[s.nBitsUsed]? with
    | none =>
      rw [bit] at good
      exact nomatch good
    | some b =>
      simp only [bit] at good same ⊢
      obtain ⟨_, _, matched⟩ := useHash_grows good
      refine ⟨_, matched, ?_⟩
      rw [same]
      cases b <;> simp
  | succ height ih =>
    have start : pos * 2 ^ (height + 1) = pos * 2 * 2 ^ height := by ring
    have insideLeft : pos * 2 * 2 ^ height < vTxid.length := by omega
    have wide := calcTreeWidth_lt_iff small (show height ≤ 31 by omega) (pos * 2 + 1)
    rw [← count] at wide
    rw [below_succ]
    simp only [traverseAndExtract] at good logged same ⊢
    match bit : tree.vBits[s.nBitsUsed]? with
    | none =>
      rw [bit] at good
      exact nomatch good
    | some false =>
      simp only [bit] at good same ⊢
      obtain ⟨_, _, matched⟩ := useHash_grows good
      exact ⟨[], matched, List.nil_sublist _⟩
    | some true =>
      simp only [bit] at good logged same ⊢
      -- The pair that was hashed is the pair of the node.
      rw [PaddedTree.Row.node_succ] at same
      have halves := injective (logged _ (List.mem_append_right _ List.mem_cons_self))
        (combined ⟨height, pos, below_, inside, rfl⟩) same
      obtain ⟨left, right⟩ := Prod.mk.inj halves
      rw [Nat.mul_comm 2 pos] at left
      by_cases full : pos * 2 + 1 < calcTreeWidth tree.nTransactions height
      · have insideRight : (pos * 2 + 1) * 2 ^ height < vTxid.length := by
          rw [← count]
          exact wide.mp full
        simp only [if_pos full] at good logged right ⊢
        rw [PaddedTree.Row.right, Nat.mul_comm 2 pos, if_pos (show _ < (Merkle.row vTxid).size from insideRight)] at right
        have loggedRight := fun p member => logged p (List.mem_append_left _ member)
        obtain ⟨goodLeft, grows⟩ := extract_grows _ _ _ _ good
        obtain ⟨first, isFirst, sub⟩ := ih (by omega) insideLeft goodLeft (fun p member => loggedRight p (grows member)) left
        obtain ⟨second, isSecond, sub'⟩ := ih (by omega) insideRight good loggedRight right
        refine ⟨first ++ second, ?_, sub.append sub'⟩
        rw [isSecond, isFirst, List.append_assoc]
      · simp only [if_neg full] at good logged ⊢
        obtain ⟨first, isFirst, sub⟩ := ih (by omega) insideLeft good (fun p member => logged p (List.mem_append_left _ member)) left
        exact ⟨first, isFirst, sub.trans (List.sublist_append_left _ _)⟩

theorem unpackBits_packBits (vBits : List Bool) :
    ∃ more, unpackBits (packBits vBits) = vBits ++ more ∧ (vBits ++ more).length = (vBits.length + 7) / 8 * 8 := by
  have size : (packBits vBits).length = (vBits.length + 7) / 8 := by simp [packBits]
  have bit : ∀ p < (vBits.length + 7) / 8 * 8, ((packBits vBits).getD (p / 8) 0).toNat.testBit (p % 8) = vBits.getD p false := by
    intro p inside
    have byte : (packBits vBits).getD (p / 8) 0 =
        UInt8.ofNat (Nat.ofBits fun j : Fin 8 => vBits.getD (8 * (p / 8) + j) false) := by
      rw [List.getD_eq_getElem _ _ (by omega)]
      simp [packBits]
    rw [byte, UInt8.toNat_ofNat', Nat.mod_eq_of_lt (Nat.ofBits_lt_two_pow _), Nat.testBit_ofBits_lt _ _ (by omega)]
    congr 1
    dsimp only
    omega
  refine ⟨List.replicate ((vBits.length + 7) / 8 * 8 - vBits.length) false, ?_, ?_⟩
  · apply List.ext_getElem
    · simp only [unpackBits, List.length_map, List.length_range, size, List.length_append, List.length_replicate]
      omega
    · intro p inside inside'
      have low : p < (vBits.length + 7) / 8 * 8 := by
        simpa [unpackBits, size] using inside
      have here := bit p low
      simp only [unpackBits, List.getElem_map, List.getElem_range, here]
      by_cases original : p < vBits.length
      · rw [List.getElem_append_left original, List.getD_eq_getElem _ _ original]
      · rw [List.getElem_append_right (by omega), List.getElem_replicate, List.getD_eq_default _ _ (by omega)]
  · rw [List.length_append, List.length_replicate]
    omega

theorem unserialize_reads (count : tree.nTransactions < 2 ^ 32) (hashes : tree.vHash.length ≤ MAX_SIZE)
    (bits : tree.vBits.length ≤ MAX_SIZE) :
    Reads unserialize { tree with vBits := unpackBits (packBits tree.vBits), fBad := false } tree.serialize.bytes := by
  have wire : tree.serialize.bytes = leBytes 4 tree.nTransactions ++ ((serializeVector (fun h => [Wire.uint256Bytes h]) tree.vHash).bytes ++
      (serializeBytes (packBits tree.vBits)).bytes) := by
    simp [serialize]
  have number : Reads (readUInt 4) tree.nTransactions (leBytes 4 tree.nTransactions) := readUInt_reads (by omega)
  have hash : ∀ h ∈ tree.vHash, Reads Wire.readUInt256 h (Writes.bytes [Wire.uint256Bytes h]) := by
    intro h _
    simpa using Wire.readUInt256_reads h
  have packed : (packBits tree.vBits).length ≤ MAX_SIZE := by
    have size : (packBits tree.vBits).length = (tree.vBits.length + 7) / 8 := by simp [packBits]
    have limit : MAX_SIZE = 33554432 := rfl
    omega
  rw [wire]
  exact number.bind ((unserializeVector_reads (by decide) hashes hash).bind (unserializeBytes_reads packed).bind_pure)

theorem nHeight_eq (count : tree.nTransactions = vTxid.length) (small : vTxid.length ≤ 2 ^ 31) :
    tree.nHeight = Nat.clog 2 vTxid.length := by
  rw [nHeight, count]
  exact treeHeight_eq small (by omega) (Nat.zero_le _)

theorem extractMatches_eq (some_ : tree.nTransactions ≠ 0)
    (few : tree.nTransactions ≤ MAX_BLOCK_SIZE_CURRENT / 60)
    (hashes : tree.vHash.length ≤ tree.nTransactions) (bits : tree.vHash.length ≤ tree.vBits.length)
    (good : (tree.extraction hash2).2.fBad = false)
    (allBits : ((tree.extraction hash2).2.nBitsUsed + 7) / 8 = (tree.vBits.length + 7) / 8)
    (allHashes : (tree.extraction hash2).2.nHashUsed = tree.vHash.length) :
    tree.extractMatches hash2 = ((tree.extraction hash2).1, (tree.extraction hash2).2.vMatch) := by
  rw [extractMatches, if_neg some_, if_neg (by omega), if_neg (by omega), if_neg (by omega)]
  simp only [good, allBits, allHashes, ne_eq, not_true_eq_false, Bool.false_eq_true, if_false]

theorem extractMatches_nonzero (nonzero : root ≠ 0) (extracted : tree.extractMatches hash2 = (root, found)) :
    tree.nTransactions ≠ 0 ∧ tree.nTransactions ≤ MAX_BLOCK_SIZE_CURRENT / 60 ∧ (tree.extraction hash2).2.fBad = false ∧
      (tree.extraction hash2).1 = root ∧ (tree.extraction hash2).2.vMatch = found := by
  have failed : ∀ {l : List uint256}, (0, l) ≠ (root, found) := fun same => nonzero (Prod.mk.inj same).1.symm
  unfold extractMatches at extracted
  by_cases none : tree.nTransactions = 0
  · rw [if_pos none] at extracted
    exact absurd extracted failed
  rw [if_neg none] at extracted
  by_cases many : tree.nTransactions > MAX_BLOCK_SIZE_CURRENT / 60
  · rw [if_pos many] at extracted
    exact absurd extracted failed
  rw [if_neg many] at extracted
  split at extracted
  · exact absurd extracted failed
  · split at extracted
    · exact absurd extracted failed
    · dsimp only at extracted
      split at extracted
      · exact absurd extracted failed
      · rename_i good
        split at extracted
        · exact absurd extracted failed
        · split at extracted
          · exact absurd extracted failed
          · obtain ⟨isRoot, isFound⟩ := Prod.mk.inj extracted
            exact ⟨none, Nat.le_of_not_lt many, by simpa using good, isRoot, isFound⟩

theorem extract_built (nonempty : vTxid ≠ []) (few : vTxid.length ≤ MAX_BLOCK_SIZE_CURRENT / 60) (mask : vMatch.length = vTxid.length) :
    ∃ tree, unserialize (ofTransactions hash2 vTxid vMatch).serialize.bytes = .ok (tree, []) ∧
      tree.extractMatches hash2 = ((Merkle.row vTxid).node hash2 (Nat.clog 2 vTxid.length) 0,
        ((vTxid.zip vMatch).filter Prod.snd).map Prod.fst) := by
  have few' : vTxid.length ≤ 33333 := few
  have small : vTxid.length ≤ 2 ^ 31 := by omega
  have positive : 0 < vTxid.length := List.length_pos_of_ne_nil nonempty
  have low : Nat.clog 2 vTxid.length ≤ 16 := (Nat.clog_le_iff_le_pow (by decide)).mpr (by omega)
  have covers : vTxid.length ≤ 2 ^ Nat.clog 2 vTxid.length := Nat.le_pow_clog (by decide) _
  obtain ⟨bits, hashes, built⟩ := built hash2 small mask (show Nat.clog 2 vTxid.length ≤ 32 by omega)
    (show 0 * 2 ^ Nat.clog 2 vTxid.length < vTxid.length by omega)
  have count : vTxid.length % 2 ^ 32 = vTxid.length := Nat.mod_eq_of_lt (by omega)
  have made : ofTransactions hash2 vTxid vMatch = ⟨vTxid.length, bits, hashes, false⟩ := by
    have height : nHeight { nTransactions := vTxid.length, fBad := false } = Nat.clog 2 vTxid.length := nHeight_eq rfl small
    unfold ofTransactions
    dsimp only
    rw [count, height, built.adds _ rfl]
    rfl
  have hashesBound := built.hashesBound
  rw [below_root covers] at hashesBound
  have bitsBound : bits.length < 2 ^ 17 := Nat.lt_of_lt_of_le built.bitsBound (Nat.pow_le_pow_right (by decide) (by omega))
  have limit : MAX_SIZE = 33554432 := rfl
  obtain ⟨more, unpacked, filled⟩ := unpackBits_packBits bits
  have reads := unserialize_reads (show (⟨vTxid.length, bits, hashes, false⟩ : CPartialMerkleTree).nTransactions < 2 ^ 32 by dsimp only; omega)
    (by dsimp only; omega) (by dsimp only; omega) []
  rw [List.append_nil] at reads
  rw [made]
  refine ⟨_, reads, ?_⟩
  dsimp only
  rw [unpacked]
  have height : nHeight ⟨vTxid.length, bits ++ more, hashes, false⟩ = Nat.clog 2 vTxid.length := nHeight_eq rfl small
  obtain ⟨root, goesOn⟩ := built.extracts ⟨vTxid.length, bits ++ more, hashes, false⟩ {} more [] rfl rfl (by simp)
  have extracted : extraction hash2 ⟨vTxid.length, bits ++ more, hashes, false⟩ =
      traverseAndExtract hash2 ⟨vTxid.length, bits ++ more, hashes, false⟩ (Nat.clog 2 vTxid.length) 0 {} := by
    rw [extraction, height]
  have matched : matchedBelow vTxid vMatch (Nat.clog 2 vTxid.length) 0 = ((vTxid.zip vMatch).filter Prod.snd).map Prod.fst := by
    rw [matchedBelow, below_root covers, below_root (by omega)]
  have usedBits := goesOn.bits
  have usedHashes := goesOn.hashes
  have found := goesOn.matched
  have enough := built.enoughBits
  rw [extractMatches_eq (by dsimp only; omega) few hashesBound (by dsimp only; rw [List.length_append]; omega), extracted, root, found, matched]
  · rfl
  · rw [extracted]
    exact goesOn.fBad
  · rw [extracted, usedBits]
    dsimp only
    omega
  · rw [extracted, usedHashes]
    dsimp only
    omega

theorem extract_sublist (count : tree.nTransactions = vTxid.length)
    (injective : Set.InjOn (Function.uncurry hash2) (Merkle.hashedPairs hash2 vTxid ∪ { p | p ∈ (tree.extraction hash2).2.hashed }))
    (computed : Merkle.computeMerkleRoot hash2 vTxid = some (root, mutated)) (nonzero : root ≠ 0)
    (extracted : tree.extractMatches hash2 = (root, found)) : found.Sublist vTxid := by
  obtain ⟨some_, few, good, isRoot, isFound⟩ := extractMatches_nonzero nonzero extracted
  rw [count] at some_ few
  have few' : vTxid.length ≤ 33333 := few
  have small : vTxid.length ≤ 2 ^ 31 := by omega
  have nonempty : vTxid ≠ [] := fun empty => some_ (by rw [empty]; rfl)
  have low : Nat.clog 2 vTxid.length ≤ 32 := (Nat.clog_le_iff_le_pow (by decide)).mpr (by omega)
  have tops := (Merkle.computeMerkleRoot_tree nonempty computed).1
  rw [extraction, nHeight_eq count small] at good isRoot isFound injective
  obtain ⟨matched, isMatched, sub⟩ := extract_sound small count low injective Set.subset_union_left (Nat.le_refl _)
    (show 0 * 2 ^ Nat.clog 2 vTxid.length < vTxid.length by omega) good (fun p member => Set.mem_union_right _ member) (isRoot.trans tops)
  rw [isFound] at isMatched
  rw [below_root (Nat.le_pow_clog (by decide) _)] at sub
  rw [isMatched]
  exact sub

theorem computeMerkleRoot_some (nonempty : vTxid ≠ []) (small : vTxid.length ≤ 2 ^ 31) :
    ∃ mutated, Merkle.computeMerkleRoot hash2 vTxid = some ((Merkle.row vTxid).node hash2 (Nat.clog 2 vTxid.length) 0, mutated) := by
  cases computed : Merkle.computeMerkleRoot hash2 vTxid with
  | none =>
    rw [Merkle.computeMerkleRoot, Merkle.merkleComputation, if_neg (by simpa using nonempty), if_neg (by omega)] at computed
    cases computed
  | some result =>
    obtain ⟨root, mutated⟩ := result
    rw [(Merkle.computeMerkleRoot_tree nonempty computed).1]
    exact ⟨mutated, rfl⟩

/-- Every tree of a block is extracted to its root and its matches, and every tree that is extracted to the root of a block shows
transactions of the block, when no two of the pairs hashed for the block and in the extraction collide. -/
theorem partial_merkle_tree_complete_and_sound (hash2 : uint256 → uint256 → uint256) (vTxid : List uint256) :
    (∀ vMatch, vTxid ≠ [] → vTxid.length ≤ MAX_BLOCK_SIZE_CURRENT / 60 → vMatch.length = vTxid.length →
      ∃ tree root mutated, unserialize (ofTransactions hash2 vTxid vMatch).serialize.bytes = .ok (tree, []) ∧
        Merkle.computeMerkleRoot hash2 vTxid = some (root, mutated) ∧
        tree.extractMatches hash2 = (root, ((vTxid.zip vMatch).filter Prod.snd).map Prod.fst)) ∧
    ∀ bytes rest tree root mutated found, unserialize bytes = .ok (tree, rest) → tree.nTransactions = vTxid.length →
      Set.InjOn (Function.uncurry hash2) (Merkle.hashedPairs hash2 vTxid ∪ { p | p ∈ (tree.extraction hash2).2.hashed }) →
      Merkle.computeMerkleRoot hash2 vTxid = some (root, mutated) → root ≠ 0 → tree.extractMatches hash2 = (root, found) →
      found.Sublist vTxid := by
  constructor
  · intro vMatch nonempty few mask
    obtain ⟨tree, read, extracted⟩ := extract_built nonempty few mask
    obtain ⟨mutated, computed⟩ := computeMerkleRoot_some nonempty (Nat.le_trans few (by decide))
    exact ⟨tree, _, mutated, read, computed, extracted⟩
  · intro bytes rest tree root mutated found _ count injective computed nonzero extracted
    exact extract_sublist count injective computed nonzero extracted

end Trees

theorem second_of_three_extracted : ∃ tree, unserialize (ofTransactions Merkle.threeLeavesHash [1, 2, 3] [false, true, false]).serialize.bytes =
    .ok (tree, []) ∧ (tree.extractMatches Merkle.threeLeavesHash).2 = [2] ∧ ([2] : List uint256).Sublist [1, 2, 3] := by
  obtain ⟨complete, sound⟩ := partial_merkle_tree_complete_and_sound Merkle.threeLeavesHash [1, 2, 3]
  obtain ⟨tree, root, mutated, read, computed, extracted⟩ := complete [false, true, false] (by simp) (by decide) rfl
  have made : ofTransactions Merkle.threeLeavesHash [1, 2, 3] [false, true, false] =
      ⟨3, [true, true, false, true, false], [1, 2, Merkle.threeLeavesHash 3 3], false⟩ := by decide
  have isTree : unserialize (ofTransactions Merkle.threeLeavesHash [1, 2, 3] [false, true, false]).serialize.bytes =
      .ok (⟨3, unpackBits (packBits [true, true, false, true, false]), [1, 2, Merkle.threeLeavesHash 3 3], false⟩, []) := by
    rw [made, ← List.append_nil (serialize _).bytes]
    exact unserialize_reads (by decide) (by decide) (by decide) []
  rw [read] at isTree
  obtain ⟨rfl, _⟩ := Prod.mk.inj (Except.ok.inj isTree)
  refine ⟨_, read, by rw [extracted]; rfl, sound _ _ _ _ _ _ read rfl ?_ computed ?_ extracted⟩
  · apply Merkle.threeLeavesHash_injective.mono
    rintro p (hashed | hashed)
    · exact Merkle.threeLeavesHash_pairs hashed
    · have pairs : (extraction Merkle.threeLeavesHash ⟨3, unpackBits (packBits [true, true, false, true, false]),
          [1, 2, Merkle.threeLeavesHash 3 3], false⟩).2.hashed = [(1, 2), (Merkle.threeLeavesHash 1 2, Merkle.threeLeavesHash 3 3)] := by decide
      rw [Set.mem_ofPred_eq, pairs, List.mem_cons, List.mem_singleton] at hashed
      exact hashed.imp id .inr
  · rintro rfl
    have value : (Merkle.computeMerkleRoot Merkle.threeLeavesHash [1, 2, 3]).map Prod.fst =
        some 0xe9ffb584c62449f157c8be88257bd1eebb2d8ef824f5c86b43c4f8fd9e800d6a := by decide
    rw [computed, Option.map_some] at value
    have zero : (0 : uint256) = 0xe9ffb584c62449f157c8be88257bd1eebb2d8ef824f5c86b43c4f8fd9e800d6a := Option.some.inj value
    exact absurd zero (by decide)

end CPartialMerkleTree

end SchillingCoin
