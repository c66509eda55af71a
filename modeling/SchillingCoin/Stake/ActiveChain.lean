import SchillingCoin.Stake.Kernel

/-!
What the verdict of `CheckProofOfStake` takes from the active chain: whether it holds the block of the
staked output, and before stake modifier version two the blocks after it up to the modifier.
-/

namespace SchillingCoin

/-- The blocks the loop of `GetOldModifier` looks at: up to the block whose modifier is taken, or all of
them when there is none. -/
def oldModifierWindow (stop : Nat) : (nStakeModifierTime : Nat) → List CBlockIndex → List CBlockIndex
  | _, [] => []
  | nStakeModifierTime, pindex :: rest =>
    let nStakeModifierTime := if pindex.generatedStakeModifier then pindex.nTime else nStakeModifierTime
    pindex :: if nStakeModifierTime < stop then oldModifierWindow stop nStakeModifierTime rest else []

def CChain.modifierWindow (c : CChain) (pindexFrom : CBlockIndex) : List CBlockIndex :=
  oldModifierWindow (pindexFrom.nTime + OLD_MODIFIER_INTERVAL) pindexFrom.nTime (c.above pindexFrom.nHeight)

theorem oldModifierBlock_window (stop nStakeModifierTime : Nat) (blocks : List CBlockIndex) :
    oldModifierBlock stop nStakeModifierTime (oldModifierWindow stop nStakeModifierTime blocks) =
      oldModifierBlock stop nStakeModifierTime blocks := by
  induction blocks generalizing nStakeModifierTime with
  | nil => rfl
  | cons pindex rest ih =>
    simp only [oldModifierWindow, oldModifierBlock]
    generalize (if pindex.generatedStakeModifier then pindex.nTime else nStakeModifierTime) = time
    by_cases early : time < stop
    · simp only [early, if_true]
      exact ih time
    · simp only [early, if_false]

theorem getOldModifier_congr (same : c.modifierWindow pindexFrom = c'.modifierWindow pindexFrom) :
    getOldModifier network c pindexFrom = getOldModifier network c' pindexFrom := by
  unfold CChain.modifierWindow at same
  rw [getOldModifier, getOldModifier, ← oldModifierBlock_window, same, oldModifierBlock_window]

def CBlock.stakedInput (block : CBlock) : Option CTxIn := block.vtx[1]?.bind fun tx => tx.vin.head?

/-- The block that holds the staked output, by the memory pool and the transaction index. -/
def StakeNode.stakeOrigin (node : StakeNode) (chainActive : CChain) (block : CBlock) : Option CBlockIndex := do
  let txin ← block.stakedInput
  let (_, hashBlock) ← node.getTransaction chainActive txin.prevout.hash
  node.mapBlockIndex.lookup hashBlock

structure StakeNode.SameRecords (node node' : StakeNode) (hash : uint256) : Prop where
  network : node.network = node'.network
  tree : node.mapBlockIndex = node'.mapBlockIndex
  indexed : node.fTxIndex = true
  indexed' : node'.fTxIndex = true
  mempool : node.mempool.mapTx.lookup hash = node'.mempool.mapTx.lookup hash
  readTxIndex : node.readTxIndex hash = node'.readTxIndex hash

theorem StakeNode.SameRecords.getTransaction {node : StakeNode} {hash : uint256} (same : node.SameRecords node' hash)
    (c c' : CChain) : node.getTransaction c hash = node'.getTransaction c' hash := by
  simp only [StakeNode.getTransaction, same.indexed, same.indexed', same.mempool, same.readTxIndex, if_true]

structure ChainsAgree (node : StakeNode) (c c' : CChain) (block : CBlock) (pindexPrev : CBlockIndex) : Prop where
  origin : ∀ pindexFrom, node.stakeOrigin c block = some pindexFrom → c.contains pindexFrom = c'.contains pindexFrom
  modifier : node.network.consensus.isStakeModifierV2 (pindexPrev.nHeight + 1) = false →
    ∀ pindexFrom, node.stakeOrigin c block = some pindexFrom → c.contains pindexFrom = true →
      c.modifierWindow pindexFrom = c'.modifierWindow pindexFrom

section Agreement

variable {node node' : StakeNode} {c c' : CChain} {block : CBlock} {pindexPrev : CBlockIndex}

theorem initFromTxIn_congr (staked : block.stakedInput = some txin) (same : node.SameRecords node' txin.prevout.hash)
    (agree : ChainsAgree node c c' block pindexPrev) :
    CSchStake.initFromTxIn node c txin = CSchStake.initFromTxIn node' c' txin := by
  have read := same.getTransaction c c'
  unfold CSchStake.initFromTxIn
  cases found : node.getTransaction c txin.prevout.hash with
  | none => simp [← read, found]
  | some r =>
    obtain ⟨txPrev, hashBlock⟩ := r
    simp only [← read, found, ← same.tree, Option.bind_eq_bind, Option.bind_some]
    cases known : node.mapBlockIndex.lookup hashBlock with
    | none => rfl
    | some pindex =>
      have origin : node.stakeOrigin c block = some pindex := by
        simp [StakeNode.stakeOrigin, staked, found, known]
      simp only [Option.bind_some, agree.origin pindex origin]

theorem initFromTxIn_origin {stake : CSchStake} (staked : block.stakedInput = some txin)
    (h : CSchStake.initFromTxIn node c txin = some stake) :
    node.stakeOrigin c block = some stake.pindexFrom ∧ c.contains stake.pindexFrom = true := by
  unfold CSchStake.initFromTxIn at h
  simp only [Option.bind_eq_bind, Option.bind_eq_some_iff] at h
  obtain ⟨⟨txPrev, hashBlock⟩, found, pindex, known, h⟩ := h
  split at h
  · rename_i held
    obtain rfl := Option.some.inj h
    exact ⟨by simp [StakeNode.stakeOrigin, staked, found, known], held⟩
  · cases h

theorem loadStakeInput_cases (block : CBlock) (pindexPrev : CBlockIndex) :
    (∃ e, ∀ node c, loadStakeInput node c block pindexPrev = .error e) ∨
    ∃ tx txin, block.stakedInput = some txin ∧ ∀ node c, loadStakeInput node c block pindexPrev =
      match CSchStake.initFromTxIn node c txin with
      | none => .error .initialization
      | some stake => .ok (tx, txin, stake) := by
  unfold loadStakeInput
  cases mismatch : decide (block.hashPrevBlock ≠ pindexPrev.hash) with
  | true => exact Or.inl ⟨_, fun _ _ => rfl⟩
  | false =>
    unfold CBlock.stakedInput
    split
    · rename_i tx _ vtx
      simp only [vtx]
      cases stake : tx.isCoinStake with
      | false => exact Or.inl ⟨.initialization, fun _ _ => rfl⟩
      | true =>
        cases vin : tx.vin with
        | nil => exact Or.inl ⟨.abort, fun _ _ => rfl⟩
        | cons txin rest => exact Or.inr ⟨tx, txin, by simp [vin], fun _ _ => rfl⟩
    · exact Or.inl ⟨.initialization, fun _ _ => rfl⟩

theorem make_congr {stake : CSchStake}
    (same : network.consensus.isStakeModifierV2 (pindexPrev.nHeight + 1) = false → c.modifierWindow stake.pindexFrom = c'.modifierWindow stake.pindexFrom) :
    CStakeKernel.make network c pindexPrev stake nBits nTimeTx = CStakeKernel.make network c' pindexPrev stake nBits nTimeTx := by
  have modifier : CStakeKernel.stakeModifierOf network c pindexPrev stake.pindexFrom =
      CStakeKernel.stakeModifierOf network c' pindexPrev stake.pindexFrom := by
    unfold CStakeKernel.stakeModifierOf
    cases version : network.consensus.isStakeModifierV2 (pindexPrev.nHeight + 1) with
    | true => rfl
    | false => rw [getOldModifier_congr (same version)]
  unfold CStakeKernel.make
  rw [modifier]

/-- Two nodes give a proof-of-stake block the same verdict when they agree on the block of the staked
output: their records of it, whether the active chain holds it, and, where it does and before stake
modifier version two, the blocks after it that the modifier is looked for in. -/
theorem proof_of_stake_verdict_agrees (crypto : Crypto)
    (same : ∀ txin, block.stakedInput = some txin → node.SameRecords node' txin.prevout.hash)
    (agree : ChainsAgree node c c' block pindexPrev) :
    checkProofOfStake crypto node c block pindexPrev = checkProofOfStake crypto node' c' block pindexPrev := by
  unfold checkProofOfStake
  rcases loadStakeInput_cases block pindexPrev with ⟨e, refused⟩ | ⟨tx, txin, staked, load⟩
  · rw [refused, refused]
    rfl
  · have records := same txin staked
    rw [load, load, ← initFromTxIn_congr staked records agree]
    cases init : CSchStake.initFromTxIn node c txin with
    | none => rfl
    | some stake =>
      have ⟨origin, held⟩ := initFromTxIn_origin staked init
      have window := fun version => agree.modifier version stake.pindexFrom origin held
      simp only [bind, Except.bind, ← records.network, make_congr window]

end Agreement

def stakerScript : CScript :=
  [0x21, 0x02, 0x79, 0xbe, 0x66, 0x7e, 0xf9, 0xdc, 0xbb, 0xac, 0x55, 0xa0, 0x62, 0x95, 0xce, 0x87, 0x0b, 0x07, 0x02,
   0x9b, 0xfc, 0xdb, 0x2d, 0xce, 0x28, 0xd9, 0x59, 0xf2, 0x81, 0x5b, 0x16, 0xf8, 0x17, 0x98, 0xac]

def stakerSignature : valtype :=
  [0x30, 0x45, 0x02, 0x21, 0x00, 0xf9, 0x73, 0xa0, 0xb8, 0x70, 0x62, 0xc3, 0x89, 0xd1, 0x25, 0xd8, 0x19, 0x9e, 0x80,
   0x3b, 0x83, 0x2b, 0x6a, 0xc6, 0xbf, 0x78, 0x67, 0xa4, 0xf6, 0xcd, 0x87, 0x50, 0x60, 0x60, 0xfc, 0x4c, 0x58, 0x02,
   0x20, 0x4a, 0x66, 0x81, 0xcc, 0x14, 0xd4, 0xe7, 0xda, 0xbf, 0x13, 0xd8, 0x85, 0xa6, 0xbf, 0x69, 0x9a, 0xd7, 0x3b,
   0xd4, 0x2c, 0x3a, 0xd5, 0xe9, 0x33, 0xf2, 0xdc, 0x9b, 0x84, 0x6a, 0x7c, 0xce, 0x8c]

def stakerSighash : uint256 := 0x9347ce6caf99b6d753444acd08bd743f418f6461a2f9581ab7618e071b06c8d4

def kernelMessage (modifier : List UInt8) : valtype :=
  modifier ++ [0x58, 0x6b, 0xe0, 0x5b, 0x00, 0x00, 0x00, 0x00, 0x51] ++ List.replicate 31 0x00 ++ [0xb2, 0x79, 0xe0, 0x5b]

def kernelDigests : List (valtype × valtype) :=
  let own : valtype :=
    [0x96, 0xb6, 0x59, 0x8f, 0xb7, 0x66, 0x6d, 0x61, 0xd7, 0xb8, 0x89, 0xa5, 0x4f, 0x2f, 0x1b, 0xb5, 0x25, 0x33, 0xdb,
     0x03, 0xb9, 0x98, 0x94, 0xdf, 0x40, 0x39, 0x58, 0xf0, 0x9b, 0x9a, 0x99, 0x9f]
  let none : valtype :=
    [0x7a, 0xda, 0x4a, 0xb7, 0xb2, 0xba, 0xd5, 0xce, 0x24, 0x8c, 0x78, 0x0a, 0x4d, 0x94, 0x0b, 0xe1, 0xd2, 0xcb, 0xf0,
     0xbe, 0x6a, 0xd9, 0x10, 0xab, 0x8f, 0xf4, 0x6f, 0x34, 0xf9, 0xbf, 0xbd, 0x4a]
  [(kernelMessage [0x88, 0x77, 0x66, 0x55, 0x44, 0x33, 0x22, 0x11], own),
   (own, [0xf1, 0xfe, 0xe0, 0xc2, 0x03, 0x1e, 0xd3, 0x79, 0xe0, 0xe6, 0x00, 0x46, 0x0a, 0xc6, 0xaf, 0xd3, 0x2c, 0xcf, 0xd2,
     0xef, 0xfe, 0x02, 0x8b, 0x6a, 0xe1, 0x16, 0xd3, 0xd7, 0xbc, 0xdd, 0xca, 0x13]),
   (kernelMessage [0, 0, 0, 0, 0, 0, 0, 0], none),
   (none, [0xaa, 0x71, 0xe5, 0xc7, 0x06, 0x32, 0x0d, 0x33, 0x65, 0xa1, 0xb3, 0xeb, 0x11, 0xd7, 0x2b, 0xe7, 0xec, 0xfc, 0x3f,
     0x36, 0x4a, 0xaf, 0x7b, 0x98, 0x53, 0x9b, 0x01, 0x6d, 0x30, 0x5a, 0x73, 0x9d])]

def stakerCrypto : Crypto where
  ripemd160 _ := []
  sha1 _ := []
  sha256 vch := (kernelDigests.lookup vch).getD []
  checkLowS _ := true
  signatureHash scriptCode _ nIn nHashType :=
    if scriptCode = stakerScript ∧ nIn = 0 ∧ nHashType = 1 then stakerSighash else 1
  verify pubkey sighash vchSig := pubkey == (stakerScript.drop 1).dropLast && sighash == stakerSighash && vchSig == stakerSignature

def stakedTx : CTransaction :=
  { hash := 0x51, vin := [{ prevout := ⟨0x50, 0⟩ }], vout := [⟨40000000000, stakerScript, -10⟩] }

def stakeGenesis : CBlockIndex := { hash := 0x10, nHeight := 0, nTime := 1541434110 }
def stakeOriginBlock : CBlockIndex := { hash := 0x11, pprev := some 0x10, nHeight := 1, nTime := 1541434200 }
def stakeNextBlock : CBlockIndex := { hash := 0x12, pprev := some 0x11, nHeight := 2, nTime := 1541434260 }

def stakeParent : CBlockIndex :=
  { hash := 0x13, pprev := some 0x12, nHeight := 3, nTime := 1541437200, generatedStakeModifier := true
    vStakeModifier := [0x88, 0x77, 0x66, 0x55, 0x44, 0x33, 0x22, 0x11] }

def rivalBlock : CBlockIndex := { hash := 0x21, pprev := some 0x10, nHeight := 1, nTime := 1541434230 }

def stakeNode : StakeNode :=
  { network := .main
    mapBlockIndex := ((((((∅ : StdMap uint256 CBlockIndex).insert 0x10 stakeGenesis).insert 0x11 stakeOriginBlock).insert 0x12
      stakeNextBlock).insert 0x13 stakeParent).insert 0x21 rivalBlock)
    readTxIndex := fun hash => if hash = 0x51 then some (stakedTx, 0x11) else none }

def stakedBlock : CBlock :=
  { hash := 0x14
    hashPrevBlock := 0x13
    nTime := 1541437874
    nBits := 0x1e0fffff
    vtx := [{ hash := 0x60, vin := [{ prevout := .null, scriptSig := [0x54, 0x00] }], vout := [⟨0, [], -10⟩] },
      { hash := 0x61
        vin := [{ prevout := ⟨0x51, 0⟩, scriptSig := CScript.pushData (stakerSignature ++ [0x01]) }]
        vout := [⟨0, [], -10⟩, ⟨40000000000, stakerScript, -10⟩] }] }

theorem heights_of_all {vChain : List CBlockIndex}
    (all : vChain.zipIdx.all (fun p => p.1.nHeight == p.2) = true) (nHeight : Nat) (pindex : CBlockIndex)
    (found : vChain[nHeight]? = some pindex) : pindex.nHeight = nHeight := by
  have mem : (pindex, nHeight) ∈ vChain.zipIdx := List.mem_zipIdx_iff_getElem?.mpr found
  simpa using List.all_eq_true.mp all _ mem

def ownChain : CChain := ⟨[stakeGenesis, stakeOriginBlock, stakeNextBlock, stakeParent], heights_of_all (by decide)⟩
def rivalChain : CChain := ⟨[stakeGenesis, rivalBlock], heights_of_all (by decide)⟩
def shortChain : CChain := ⟨[stakeGenesis, stakeOriginBlock, stakeNextBlock], heights_of_all (by decide)⟩

theorem verdict_depends_on_active_chain :
    (∀ pindex ∈ ownChain.vChain ++ rivalChain.vChain ++ shortChain.vChain,
      stakeNode.mapBlockIndex.lookup pindex.hash = some pindex) ∧
    checkProofOfStake stakerCrypto stakeNode ownChain stakedBlock stakeParent = .ok () ∧
    checkProofOfStake stakerCrypto stakeNode rivalChain stakedBlock stakeParent = .error .initialization ∧
    checkProofOfStake stakerCrypto stakeNode shortChain stakedBlock stakeParent = .error .kernelHash := by
  refine ⟨by decide, by decide, by decide, by decide⟩

def extendedChain : CChain :=
  ⟨[stakeGenesis, stakeOriginBlock, stakeNextBlock, stakeParent,
    { hash := 0x24, pprev := some 0x13, nHeight := 4, nTime := 1541437260 }], heights_of_all (by decide)⟩

theorem verdict_same_on_extended_chain :
    checkProofOfStake stakerCrypto stakeNode ownChain stakedBlock stakeParent =
      checkProofOfStake stakerCrypto stakeNode extendedChain stakedBlock stakeParent := by
  have origin : stakeNode.stakeOrigin ownChain stakedBlock = some stakeOriginBlock := by decide
  apply proof_of_stake_verdict_agrees
  · intro txin _
    exact ⟨rfl, rfl, rfl, rfl, rfl, rfl⟩
  · constructor
    · intro pindexFrom from_
      obtain rfl := Option.some.inj (origin.symm.trans from_)
      decide
    · intro _ pindexFrom from_ _
      obtain rfl := Option.some.inj (origin.symm.trans from_)
      decide

end SchillingCoin
