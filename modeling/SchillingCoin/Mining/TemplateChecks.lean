import Mathlib.Algebra.Order.BigOperators.Group.List
import SchillingCoin.Mining.Coinstake

/-!
The checks of a block that do not read the coins, against the block that `CreateNewBlock` hands to `TestBlockValidity`.
-/

namespace SchillingCoin

open DataStream

def CTxIn.getSerializeSize (txin : CTxIn) : Nat := 40 + getSizeOfCompactSize txin.scriptSig.length + txin.scriptSig.length

def CTxOut.getSerializeSize (txout : CTxOut) : Nat := 8 + getSizeOfCompactSize txout.scriptPubKey.length + txout.scriptPubKey.length

theorem getSizeOfCompactSize_le (small : n ≤ k) (few : k ≤ 0xffffffff) : getSizeOfCompactSize n ≤ 5 := by
  unfold getSizeOfCompactSize
  split_ifs <;> omega

theorem getSizeOfCompactSize_one (small : n < 253) : getSizeOfCompactSize n = 1 := if_pos small

theorem length_flatMap_bytes (serialize : α → Writes) (size : α → Nat) (same : ∀ x, (serialize x).bytes.length = size x)
    (v : List α) : (v.flatMap fun x => (serialize x).bytes).length = (v.map size).sum := by
  rw [List.length_flatMap]
  simp only [same]

theorem length_serializeTxIn (txin : CTxIn) : (Wire.serializeTxIn txin).bytes.length = txin.getSerializeSize := by
  simp only [Wire.serializeTxIn, Wire.serializeOutPoint, Wire.uint256Bytes, Writes.bytes_append, Writes.bytes_cons, Writes.bytes_nil,
    bytes_serializeBytes, List.length_append, Codec.length_leBytes, List.length_nil, ← getSizeOfCompactSize_eq,
    CTxIn.getSerializeSize]
  omega

theorem length_serializeTxOut (txout : CTxOut) : (Wire.serializeTxOut txout).bytes.length = txout.getSerializeSize := by
  simp only [Wire.serializeTxOut, Wire.intBytes, Writes.bytes_cons, bytes_serializeBytes, List.length_append, Codec.length_leBytes,
    ← getSizeOfCompactSize_eq, CTxOut.getSerializeSize]
  omega

theorem CTransaction.getSerializeSize_eq (tx : CTransaction) :
    tx.getSerializeSize = 8 + getSizeOfCompactSize tx.vin.length + (tx.vin.map CTxIn.getSerializeSize).sum +
      getSizeOfCompactSize tx.vout.length + (tx.vout.map CTxOut.getSerializeSize).sum := by
  unfold getSerializeSize
  rw [Writes.size_eq_length]
  simp only [Wire.serializeTransaction, Wire.intBytes, Writes.bytes_append, Writes.bytes_cons, Writes.bytes_nil, bytes_serializeVector,
    List.length_append, Codec.length_leBytes, List.length_nil, ← getSizeOfCompactSize_eq,
    length_flatMap_bytes _ _ length_serializeTxIn, length_flatMap_bytes _ _ length_serializeTxOut]
  omega

theorem CTransaction.getSerializeSize_ge (tx : CTransaction) : 10 ≤ tx.getSerializeSize := by
  have least (n : Nat) : 1 ≤ getSizeOfCompactSize n := by
    unfold getSizeOfCompactSize
    split_ifs <;> omega
  have ins := least tx.vin.length
  have outs := least tx.vout.length
  rw [getSerializeSize_eq]
  omega

namespace Wire

def CBlockHeader.getSerializeSize (header : CBlockHeader) : Nat := if header.nVersion = 4 then 112 else 80

theorem CBlock.getSerializeSize_eq (block : CBlock) :
    block.getSerializeSize = block.toCBlockHeader.getSerializeSize + getSizeOfCompactSize block.vtx.length +
      (block.vtx.map CTransaction.getSerializeSize).sum +
      if block.isProofOfStake then getSizeOfCompactSize block.vchBlockSig.length + block.vchBlockSig.length else 0 := by
  have header : block.toCBlockHeader.serialize.bytes.length = block.toCBlockHeader.getSerializeSize := by
    unfold CBlockHeader.serialize CBlockHeader.getSerializeSize
    split <;> simp [CBlockHeader.toNonce, intBytes, uint256Bytes]
  unfold getSerializeSize
  rw [Writes.size_eq_length, serialize, Writes.bytes_append, Writes.bytes_append, List.length_append, List.length_append, header,
    bytes_serializeVector, List.length_append, ← getSizeOfCompactSize_eq,
    length_flatMap_bytes _ CTransaction.getSerializeSize fun tx => (Writes.size_eq_length _).symm]
  split
  · rw [bytes_serializeBytes, List.length_append, ← getSizeOfCompactSize_eq]
    omega
  · rw [Writes.bytes_nil, List.length_nil]
    omega

end Wire

namespace CScript

theorem getOp_pushData (short : b.length < 0x4c) (rest : CScript) :
    getOp (pushData b ++ rest) = some (UInt8.ofNat b.length, b, rest) := by
  have opcode : (UInt8.ofNat b.length).toNat = b.length := by
    rw [UInt8.toNat_ofNat']
    omega
  rw [pushData, if_pos short, List.cons_append]
  apply getOp_push
  · apply UInt8.lt_iff_toNat_lt.mpr
    rw [opcode]
    exact short
  · exact opcode

theorem sigOps_push (push : opcode ≤ OP_16) (fAccurate : Bool) (lastOpcode : UInt8) :
    sigOps fAccurate lastOpcode opcode = 0 := by
  have low : opcode.toNat ≤ 0x60 := UInt8.le_iff_toNat_le.mp push
  have other (code : UInt8) (high : 0x60 < code.toNat) : opcode ≠ code := by
    rintro rfl
    omega
  have plain : ¬(opcode = OP_CHECKSIG ∨ opcode = OP_CHECKSIGVERIFY) :=
    not_or.mpr ⟨other OP_CHECKSIG (by decide), other OP_CHECKSIGVERIFY (by decide)⟩
  have multi : ¬(opcode = OP_CHECKMULTISIG ∨ opcode = OP_CHECKMULTISIGVERIFY) :=
    not_or.mpr ⟨other OP_CHECKMULTISIG (by decide), other OP_CHECKMULTISIGVERIFY (by decide)⟩
  rw [sigOps, if_neg plain, if_neg multi]

theorem sigOpsFrom_getOp (next : getOp pc = some (opcode, data, rest)) (fAccurate : Bool) (n : Nat) (lastOpcode : UInt8) :
    sigOpsFrom fAccurate n lastOpcode pc ≤ sigOps fAccurate lastOpcode opcode + sigOpsFrom fAccurate (n - 1) opcode rest := by
  cases n with
  | zero => exact Nat.zero_le _
  | succ n => rw [sigOpsFrom, next, Nat.add_sub_cancel]

theorem sigOpsFrom_nil (fAccurate : Bool) (n : Nat) (lastOpcode : UInt8) : sigOpsFrom fAccurate n lastOpcode [] = 0 := by
  cases n <;> rfl

theorem getSigOpCount_payToPubKey (short : key.length < 0x4c) : getSigOpCount (pushData key ++ [OP_CHECKSIG]) false ≤ 1 := by
  have push : UInt8.ofNat key.length ≤ OP_16 := by
    apply UInt8.le_iff_toNat_le.mpr
    rw [UInt8.toNat_ofNat']
    show key.length % 256 ≤ 0x60
    omega
  have first := sigOpsFrom_getOp (getOp_pushData short [OP_CHECKSIG]) false (pushData key ++ [OP_CHECKSIG]).length OP_INVALIDOPCODE
  have second := sigOpsFrom_getOp (getOp_plain (show ¬OP_CHECKSIG ≤ OP_PUSHDATA4 by decide) []) false
    ((pushData key ++ [OP_CHECKSIG]).length - 1) (UInt8.ofNat key.length)
  rw [sigOps_push push] at first
  rw [sigOpsFrom_nil] at second
  have one : sigOps false (UInt8.ofNat key.length) OP_CHECKSIG = 1 := by
    rw [sigOps, if_pos (Or.inl rfl)]
  unfold getSigOpCount
  omega

variable {n : Nat}

theorem length_bytesOf (small : value < 256 ^ k) : (CScriptNum.bytesOf n value).length ≤ k := by
  induction n generalizing value k with
  | zero => exact Nat.zero_le _
  | succ n ih =>
    cases value with
    | zero => exact Nat.zero_le _
    | succ value =>
      cases k with
      | zero => omega
      | succ k =>
        have rest : (value + 1) / 256 < 256 ^ k := by
          rw [Nat.pow_succ] at small
          omega
        show (_ :: CScriptNum.bytesOf n ((value + 1) / 256)).length ≤ k + 1
        rw [List.length_cons]
        have := ih rest
        omega

theorem length_serialize (small : n < 2 ^ 32) : (CScriptNum.serialize n).length ≤ 5 := by
  have bytes : (CScriptNum.bytesOf 8 (n : Int).natAbs).length ≤ 4 := length_bytesOf (by simpa using small)
  unfold CScriptNum.serialize
  simp only
  split
  · simp
  · split
    · rw [List.length_append, List.length_singleton]
      omega
    · rw [if_neg (by omega)]
      omega

theorem pushInt_push (positive : 0 < n) (small : n < 2 ^ 32) :
    ∃ opcode data, opcode ≤ OP_16 ∧ (pushInt n).head? = some opcode ∧ (pushInt n).length ≤ 6 ∧
      ∀ rest, getOp (pushInt n ++ rest) = some (opcode, data, rest) := by
  unfold pushInt
  by_cases low : n ≤ 16
  · rw [if_pos (by omega)]
    have opcode : (UInt8.ofNat ((n : Int) + 0x50).toNat).toNat = n + 0x50 := by
      rw [UInt8.toNat_ofNat']
      omega
    refine ⟨_, [], ?_, rfl, by simp, fun rest => getOp_plain ?_ rest⟩
    · apply UInt8.le_iff_toNat_le.mpr
      rw [opcode]
      show n + 0x50 ≤ 0x60
      omega
    · rw [UInt8.le_iff_toNat_le, opcode]
      show ¬n + 0x50 ≤ 0x4e
      omega
  · rw [if_neg (by omega), if_neg (by omega)]
    have length := length_serialize small
    refine ⟨_, _, ?_, ?_, ?_, getOp_pushData (by omega)⟩
    · apply UInt8.le_iff_toNat_le.mpr
      rw [UInt8.toNat_ofNat']
      show _ % 256 ≤ 0x60
      omega
    · rw [pushData, if_pos (by omega), List.head?_cons]
    · rw [pushData, if_pos (by omega), List.length_cons]
      omega

end CScript

theorem collect_room (nBlockMaxSize : Nat) (queue : List Candidate) (size : nBlockSize ≤ nBlockMaxSize)
    (sigOps : nBlockSigOps ≤ MAX_BLOCK_SIGOPS_CURRENT) :
    nBlockSize + ((collect nBlockMaxSize nBlockSize nBlockSigOps queue).map fun c => c.tx.getSerializeSize).sum ≤ nBlockMaxSize ∧
      nBlockSigOps + ((collect nBlockMaxSize nBlockSize nBlockSigOps queue).map fun c => c.tx.getLegacySigOpCount).sum ≤
        MAX_BLOCK_SIGOPS_CURRENT := by
  induction queue generalizing nBlockSize nBlockSigOps with
  | nil => exact ⟨size, sigOps⟩
  | cons c rest ih =>
    unfold collect
    simp only
    split
    · exact ih size sigOps
    split
    · exact ih size sigOps
    split
    · exact ih size sigOps
    split
    · exact ih size sigOps
    · have later := @ih (nBlockSize + c.tx.getSerializeSize)
        (nBlockSigOps + (c.tx.getLegacySigOpCount + c.nP2SHSigOps)) (by omega) (by omega)
      simp only [List.map_cons, List.sum_cons]
      omega

theorem collect_passes (nBlockMaxSize nBlockSize nBlockSigOps : Nat) (queue : List Candidate) :
    (collect nBlockMaxSize nBlockSize nBlockSigOps queue).Sublist queue ∧
      ∀ c ∈ collect nBlockMaxSize nBlockSize nBlockSigOps queue, c.passes = true := by
  induction queue generalizing nBlockSize nBlockSigOps with
  | nil => exact ⟨List.Sublist.refl _, nofun⟩
  | cons c rest ih =>
    have skipped := fun nBlockSize nBlockSigOps => (ih nBlockSize nBlockSigOps).1.cons c
    unfold collect
    simp only
    split
    · exact ⟨skipped _ _, (ih _ _).2⟩
    split
    · exact ⟨skipped _ _, (ih _ _).2⟩
    split
    · exact ⟨skipped _ _, (ih _ _).2⟩
    rename_i passes
    split
    · exact ⟨skipped _ _, (ih _ _).2⟩
    · refine ⟨(ih _ _).1.cons_cons c, fun d member => ?_⟩
      rcases List.mem_cons.mp member with rfl | member
      · simpa using passes
      · exact (ih _ _).2 d member

theorem checkOutputs_iff (fColdStakingActive : Bool) (block : tx.isCoinBase = true ∨ tx.isCoinStake = true)
    (start : 0 ≤ nValueOut) (nonneg : ∀ out ∈ vout, 0 ≤ out.nValue)
    (total : nValueOut + (vout.map CTxOut.nValue).sum ≤ network.consensus.nMaxMoneyOut) :
    checkOutputs network tx fColdStakingActive nValueOut vout = .ok () ↔
      ∀ out ∈ vout, CScript.isPayToColdStaking out.scriptPubKey = true →
        fColdStakingActive = true ∧ MIN_COLDSTAKING_AMOUNT ≤ out.nValue := by
  have limit : network.consensus.nMaxMoneyOut < 2 ^ 63 := by cases network <;> decide
  induction vout generalizing nValueOut with
  | nil => simp [checkOutputs]
  | cons out rest ih =>
    simp only [List.map_cons, List.sum_cons] at total
    have here := nonneg out List.mem_cons_self
    have later : ∀ o ∈ rest, 0 ≤ o.nValue := fun o member => nonneg o (List.mem_cons_of_mem _ member)
    have others : 0 ≤ (rest.map CTxOut.nValue).sum := List.sum_nonneg fun x member => by
      obtain ⟨o, listed, rfl⟩ := List.mem_map.mp member
      exact later o listed
    have sum : int64 (nValueOut + out.nValue) = nValueOut + out.nValue := Int.bmod_eq_of_le (by omega) (by omega)
    have marker : ¬(out.isEmpty && !tx.isCoinBase && !tx.isCoinStake) = true := by
      rcases block with coinbase | coinstake
      · simp [coinbase]
      · simp [coinstake]
    have range : network.consensus.moneyRange (nValueOut + out.nValue) = true := by
      simp only [Consensus.Params.moneyRange, Bool.and_eq_true, decide_eq_true_eq]
      omega
    have after := ih (show 0 ≤ nValueOut + out.nValue by omega) later (by omega)
    rw [checkOutputs, if_neg marker, if_neg (by omega), if_neg (by omega)]
    simp only [sum, range, Bool.not_true, Bool.false_eq_true, if_false, List.forall_mem_cons]
    by_cases cold : CScript.isPayToColdStaking out.scriptPubKey = true
    · simp only [cold, Bool.true_and, Bool.not_eq_true', decide_eq_true_eq, forall_const]
      by_cases active : fColdStakingActive = true
      · rw [if_neg (by simp [active])]
        by_cases dust : out.nValue < MIN_COLDSTAKING_AMOUNT
        · rw [if_pos dust]
          exact iff_of_false nofun fun ⟨⟨_, large⟩, _⟩ => by omega
        · rw [if_neg dust]
          refine after.trans ⟨fun rest => ⟨⟨active, by omega⟩, rest⟩, fun all => all.2⟩
      · rw [if_pos (by simpa using active)]
        exact iff_of_false nofun fun ⟨⟨on, _⟩, _⟩ => active on
    · rw [Bool.not_eq_true] at cold
      simp only [cold, Bool.false_and, Bool.false_eq_true, if_false, false_implies, true_and]
      exact after

def sizeChecks : Checks :=
  { checkBlockHeader := fun _ _ => true, merkleRootMatches := fun _ => true, merkleTreeMutated := fun _ => false, blockSize := fun _ => 0
    txSize := CTransaction.getSerializeSize, getLegacySigOpCount := CTransaction.getLegacySigOpCount, p2shSigOps := fun _ _ => 0
    verifyScript := fun _ _ _ _ => true, getTransaction := fun _ => none, publicCoinsValid := fun _ => true, zerocoinSpent := fun _ => 0 }

structure TemplatePasses (checks : Checks) (network : Network) (fZerocoinActive fColdStakingActive : Bool) (block : Wire.CBlock) :
    Prop where
  size : block.getSerializeSize ≤ MAX_BLOCK_SIZE_CURRENT
  sigOps : (block.vtx.map CTransaction.getLegacySigOpCount).sum ≤ MAX_BLOCK_SIGOPS_CURRENT
  coinBase : ∀ tx, block.vtx[0]? = some tx →
    tx.isCoinBase = true ∧ checkTransaction checks network tx fZerocoinActive fColdStakingActive = .ok ()
  coinStake : block.isProofOfStake = true → ∀ tx, block.vtx[1]? = some tx →
    checkTransaction checks network tx fZerocoinActive fColdStakingActive = .ok ()

def coinStakeSize (n : Nat) (scriptPubKey scriptSig : CScript) (payee : Option CTxOut) : Nat :=
  59 + (getSizeOfCompactSize scriptSig.length + scriptSig.length) +
    n * (8 + getSizeOfCompactSize scriptPubKey.length + scriptPubKey.length) + payee.elim 0 CTxOut.getSerializeSize

def coinStakeSigOps (n : Nat) (scriptPubKey scriptSig : CScript) (payee : Option CTxOut) : Nat :=
  CScript.getSigOpCount scriptSig false + n * CScript.getSigOpCount scriptPubKey false +
    payee.elim 0 fun out => CScript.getSigOpCount out.scriptPubKey false

/-- What the memory pool may take of a block: all that is in it, or all that is left to it. -/
def TemplateRequest.poolSize (r : TemplateRequest) : Nat :=
  min (r.queue.map fun c => c.tx.getSerializeSize).sum (blockMaxSize r.blockMaxSizeArg - 1000)

def TemplateRequest.poolSigOps (r : TemplateRequest) : Nat :=
  min (r.queue.map fun c => c.tx.getLegacySigOpCount).sum (MAX_BLOCK_SIGOPS_CURRENT - 100)

namespace TemplateState

variable (s : TemplateState) (r : TemplateRequest)

/-- What holds of the chain, the memory pool, the wallet and the callers: amounts in the range of money, stakes that name an output, no
key for an empty script, and a coinbase that pays a public key or anyone. -/
structure Consistent : Prop where
  height : s.nHeight + 1 < 2 ^ 31
  caller : r.fProofOfStake = false → r.scriptPubKeyIn = [OP_1] ∨
    ∃ key : CPubKey, (key.length = 33 ∨ key.length = 65) ∧ r.scriptPubKeyIn = CScript.pushData key ++ [OP_CHECKSIG]
  fees : ∀ taken : List Candidate, taken.Sublist r.queue → (∀ c ∈ taken, c.passes = true) →
    0 ≤ (taken.map Candidate.nTxFees).sum ∧
      (taken.map Candidate.nTxFees).sum + s.network.getBlockValue s.nHeight ≤ s.network.consensus.nMaxMoneyOut
  payee : ∀ out, s.payees.payeeOutput s.network s.nHeight = some out → 0 ≤ out.nValue
  stakes : ∀ stake ∈ s.stakes, stake.prevout.isNull = false ∧ 0 ≤ stake.out.nValue ∧
    s.stakeCredit stake + (s.payees.payeeOutput s.network s.nHeight).elim 0 CTxOut.nValue ≤ s.network.consensus.nMaxMoneyOut
  keys : ∀ block, s.wallet.signBlockWith [] block = none

/-- A coinstake is small enough, its cold-staking outputs are allowed, and it fits into a block with `nSize` bytes and `nSigOps`
signature operations of other data. -/
structure StakeFits (fColdStakingActive : Bool) (nSize nSigOps : Nat) (stake : StakeTry) (scriptPubKey scriptSig : CScript) : Prop where
  size : coinStakeSize (s.wallet.splitCount (s.stakeCredit stake)) scriptPubKey scriptSig (s.payees.payeeOutput s.network s.nHeight) ≤
    MAX_ZEROCOIN_TX_SIZE
  shares : CScript.isPayToColdStaking scriptPubKey = true → fColdStakingActive = true ∧
    MIN_COLDSTAKING_AMOUNT ≤ stakeShare (s.wallet.splitCount (s.stakeCredit stake)) (s.stakeCredit stake)
      (s.payees.takenFromStake s.network s.nHeight scriptPubKey) ∧
    MIN_COLDSTAKING_AMOUNT ≤ lastStakeShare (s.wallet.splitCount (s.stakeCredit stake)) (s.stakeCredit stake)
      (s.payees.takenFromStake s.network s.nHeight scriptPubKey)
  payee : ∀ out, s.payees.payeeOutput s.network s.nHeight = some out → CScript.isPayToColdStaking out.scriptPubKey = true →
    fColdStakingActive = true ∧ MIN_COLDSTAKING_AMOUNT ≤ out.nValue
  blockSize : coinStakeSize (s.wallet.splitCount (s.stakeCredit stake)) scriptPubKey scriptSig
      (s.payees.payeeOutput s.network s.nHeight) + nSize ≤ MAX_BLOCK_SIZE_CURRENT
  blockSigOps : coinStakeSigOps (s.wallet.splitCount (s.stakeCredit stake)) scriptPubKey scriptSig
      (s.payees.payeeOutput s.network s.nHeight) + nSigOps ≤ MAX_BLOCK_SIGOPS_CURRENT

/-- A coin of the wallet that can be staked, the script that it is paid back to, and the signature of an input. -/
structure Stakeable (stake : StakeTry) (scriptPubKey scriptSig : CScript) : Prop where
  listed : stake ∈ s.stakes
  kernel : stake.fKernelFound = true
  script : s.wallet.stakeScript stake.out.scriptPubKey = some scriptPubKey
  signature : ∃ txNew, s.wallet.signSignature txNew = some scriptSig

/-- Each coin that the wallet may stake fits beside all that the memory pool may take of the block, a header, a coinbase and a signature. -/
structure WalletFits (fColdStakingActive : Bool) : Prop where
  signature : ∀ scriptPubKey block vchBlockSig, s.wallet.signBlockWith scriptPubKey block = some vchBlockSig → vchBlockSig.length ≤ 72
  stakes : ∀ stake scriptPubKey scriptSig, s.Stakeable stake scriptPubKey scriptSig →
    s.StakeFits fColdStakingActive (r.poolSize + 325) r.poolSigOps stake scriptPubKey scriptSig

section Coinstake

variable {s} {stake : StakeTry} {scriptPubKey scriptSig : CScript}

theorem usedStake_spec {stakes : List StakeTry} (used : s.usedStake stakes = some (stake, scriptPubKey)) :
    stake ∈ stakes ∧ stake.fKernelFound = true ∧ s.wallet.stakeScript stake.out.scriptPubKey = some scriptPubKey := by
  induction stakes with
  | nil => cases used
  | cons first rest ih =>
    rw [usedStake] at used
    split at used
    · cases used
    split at used
    · obtain ⟨listed, spec⟩ := ih used
      exact ⟨List.mem_cons_of_mem _ listed, spec⟩
    rename_i found
    split at used
    · obtain ⟨listed, spec⟩ := ih used
      exact ⟨List.mem_cons_of_mem _ listed, spec⟩
    · rename_i script
      obtain ⟨rfl, rfl⟩ := Prod.mk.inj (Option.some.inj used)
      exact ⟨List.mem_cons_self, by simpa using found, script⟩

theorem length_paidOutputs (stake : StakeTry) (scriptPubKey : CScript) :
    (s.paidOutputs stake scriptPubKey).length =
      s.wallet.splitCount (s.stakeCredit stake) + (s.payees.payeeOutput s.network s.nHeight).toList.length := by
  rw [paidOutputs, List.length_append, length_stakeOutputs (s.wallet.splitCount_bounds _).1]

theorem sum_paidOutputs (f : CScript → Nat) (stake : StakeTry) (scriptPubKey : CScript) :
    ((s.paidOutputs stake scriptPubKey).map fun out => f out.scriptPubKey).sum =
      s.wallet.splitCount (s.stakeCredit stake) * f scriptPubKey +
        (s.payees.payeeOutput s.network s.nHeight).elim 0 fun out => f out.scriptPubKey := by
  have positive := (s.wallet.splitCount_bounds (s.stakeCredit stake)).1
  have shares : (s.wallet.splitCount (s.stakeCredit stake) - 1) * f scriptPubKey + f scriptPubKey =
      s.wallet.splitCount (s.stakeCredit stake) * f scriptPubKey := by
    rw [← Nat.succ_mul]
    congr 1
    omega
  rw [paidOutputs, stakeOutputs]
  cases s.payees.payeeOutput s.network s.nHeight with
  | none => simp [shares]
  | some out =>
    simp [Option.elim]
    omega

theorem coinStakeOf_size (stake : StakeTry) (scriptPubKey scriptSig : CScript) :
    (s.coinStakeOf stake scriptPubKey scriptSig).getSerializeSize =
      coinStakeSize (s.wallet.splitCount (s.stakeCredit stake)) scriptPubKey scriptSig (s.payees.payeeOutput s.network s.nHeight) := by
  have few := (s.wallet.splitCount_bounds (s.stakeCredit stake)).2
  have most : MAX_STANDARD_TX_SIZE / 2 ^ 11 = 48 := by decide
  have payee : (s.payees.payeeOutput s.network s.nHeight).toList.length ≤ 1 := by
    cases s.payees.payeeOutput s.network s.nHeight <;> simp
  have outputs := s.sum_paidOutputs (fun script => 8 + getSizeOfCompactSize script.length + script.length) stake scriptPubKey
  have count := s.length_paidOutputs stake scriptPubKey
  have one : getSizeOfCompactSize ((s.paidOutputs stake scriptPubKey).length + 1) = 1 := getSizeOfCompactSize_one (by omega)
  rw [CTransaction.getSerializeSize_eq]
  simp only [coinStakeOf, List.map_cons, List.map_nil, List.sum_cons, List.sum_nil, List.length_cons, List.length_nil, one,
    CTxIn.getSerializeSize, coinStakeSize]
  have marker : CTxOut.empty.getSerializeSize = 9 := by decide
  have single : getSizeOfCompactSize (0 + 1) = 1 := by decide
  have sizes : ((s.paidOutputs stake scriptPubKey).map CTxOut.getSerializeSize).sum =
      s.wallet.splitCount (s.stakeCredit stake) * (8 + getSizeOfCompactSize scriptPubKey.length + scriptPubKey.length) +
        (s.payees.payeeOutput s.network s.nHeight).elim 0 CTxOut.getSerializeSize := outputs
  rw [sizes, marker, single]
  omega

theorem coinStakeOf_sigOps (stake : StakeTry) (scriptPubKey scriptSig : CScript) :
    (s.coinStakeOf stake scriptPubKey scriptSig).getLegacySigOpCount =
      coinStakeSigOps (s.wallet.splitCount (s.stakeCredit stake)) scriptPubKey scriptSig
        (s.payees.payeeOutput s.network s.nHeight) := by
  have outputs := s.sum_paidOutputs (fun script => CScript.getSigOpCount script false) stake scriptPubKey
  have marker : CScript.getSigOpCount CTxOut.empty.scriptPubKey false = 0 := rfl
  simp only [CTransaction.getLegacySigOpCount, coinStakeOf, List.map_cons, List.map_nil, List.sum_cons, List.sum_nil, outputs, marker,
    coinStakeSigOps]
  omega

theorem coinStakeOf_isCoinStake (named : stake.prevout.isNull = false) (scriptPubKey scriptSig : CScript) :
    (s.coinStakeOf stake scriptPubKey scriptSig).isCoinStake = true ∧ (s.coinStakeOf stake scriptPubKey scriptSig).isCoinBase = false := by
  have count := s.length_paidOutputs stake scriptPubKey
  have positive := (s.wallet.splitCount_bounds (s.stakeCredit stake)).1
  constructor
  · unfold CTransaction.isCoinStake coinStakeOf
    cases outputs : s.paidOutputs stake scriptPubKey with
    | nil =>
      rw [outputs, List.length_nil] at count
      omega
    | cons first rest => simp [named, CTxOut.isEmpty, CTxOut.empty]
  · simp [CTransaction.isCoinBase, coinStakeOf, named]

theorem masternodePaymentAt_bounds (network : Network) (tipHeight : Nat) :
    0 ≤ network.masternodePaymentAt tipHeight ∧ network.masternodePaymentAt tipHeight + 2162 ≤ network.getBlockValue tipHeight := by
  unfold Network.masternodePaymentAt Network.getMasternodePayment Network.getBlockValue
  split_ifs <;> decide

theorem takenFromStake_bounds (scriptPubKey : CScript) :
    0 ≤ s.payees.takenFromStake s.network s.nHeight scriptPubKey ∧
      s.payees.takenFromStake s.network s.nHeight scriptPubKey + 2162 ≤ s.network.getBlockValue s.nHeight := by
  have bounds := masternodePaymentAt_bounds s.network s.nHeight
  unfold PayeeState.takenFromStake
  split_ifs <;> omega

theorem checkTransaction_coinStake (sizes : ∀ tx, checks.txSize tx = tx.getSerializeSize)
    (fZerocoinActive fColdStakingActive : Bool) (scriptPubKey scriptSig : CScript) (named : stake.prevout.isNull = false)
    (value : 0 ≤ stake.out.nValue)
    (range : s.stakeCredit stake + (s.payees.payeeOutput s.network s.nHeight).elim 0 CTxOut.nValue ≤ s.network.consensus.nMaxMoneyOut)
    (paid : ∀ out, s.payees.payeeOutput s.network s.nHeight = some out → 0 ≤ out.nValue) :
    checkTransaction checks s.network (s.coinStakeOf stake scriptPubKey scriptSig) fZerocoinActive fColdStakingActive = .ok () ↔
      (s.coinStakeOf stake scriptPubKey scriptSig).getSerializeSize ≤ MAX_ZEROCOIN_TX_SIZE ∧
        ∀ out ∈ s.paidOutputs stake scriptPubKey, CScript.isPayToColdStaking out.scriptPubKey = true →
          fColdStakingActive = true ∧ MIN_COLDSTAKING_AMOUNT ≤ out.nValue := by
  obtain ⟨isStake, notBase⟩ := coinStakeOf_isCoinStake (s := s) named scriptPubKey scriptSig
  obtain ⟨positive, few⟩ := s.wallet.splitCount_bounds (s.stakeCredit stake)
  obtain ⟨taken, enough⟩ := s.takenFromStake_bounds scriptPubKey
  obtain ⟨share, last⟩ := stakeShare_values positive few taken
    (show _ ≤ s.stakeCredit stake by unfold stakeCredit; omega)
  have nonneg : ∀ out ∈ CTxOut.empty :: s.paidOutputs stake scriptPubKey, 0 ≤ out.nValue := by
    intro out member
    rcases List.mem_cons.mp member with rfl | member
    · exact Int.le_refl 0
    rcases List.mem_append.mp member with member | member
    · rcases List.mem_append.mp member with member | member
      · rw [List.eq_of_mem_replicate member]
        exact share
      · rw [List.mem_singleton.mp member]
        exact last
    · exact paid out (Option.mem_toList.mp member)
  have total : 0 + ((CTxOut.empty :: s.paidOutputs stake scriptPubKey).map CTxOut.nValue).sum ≤ s.network.consensus.nMaxMoneyOut := by
    have payee : ((s.payees.payeeOutput s.network s.nHeight).toList.map CTxOut.nValue).sum =
        (s.payees.payeeOutput s.network s.nHeight).elim 0 CTxOut.nValue := by
      cases s.payees.payeeOutput s.network s.nHeight <;> simp
    rw [List.map_cons, List.sum_cons, paidOutputs, List.map_append, List.sum_append, stakeOutputs_values, payee]
    show 0 + (0 + _) ≤ _
    omega
  have outputs := checkOutputs_iff fColdStakingActive (Or.inr isStake) (Int.le_refl 0) nonneg total
  have marker : ¬CScript.isPayToColdStaking CTxOut.empty.scriptPubKey = true := by decide
  rw [List.forall_mem_cons] at outputs
  have inputs : checkDuplicateInputs [] (s.coinStakeOf stake scriptPubKey scriptSig).vin = .ok () := by
    simp [coinStakeOf, checkDuplicateInputs]
  have shape : checkInputShape (s.coinStakeOf stake scriptPubKey scriptSig) fZerocoinActive = .ok () := by
    rw [checkInputShape, notBase]
    simp [coinStakeOf, named, Checked.refuse]
  have filled : (s.coinStakeOf stake scriptPubKey scriptSig).vin.isEmpty = false ∧
      (s.coinStakeOf stake scriptPubKey scriptSig).vout.isEmpty = false := ⟨rfl, rfl⟩
  unfold checkTransaction
  rw [filled.1, filled.2, sizes, inputs, shape]
  simp only [Checked.refuse_false, Checked.ok_bind]
  by_cases small : (s.coinStakeOf stake scriptPubKey scriptSig).getSerializeSize ≤ MAX_ZEROCOIN_TX_SIZE
  · rw [decide_eq_false (by omega), Checked.refuse_false, Checked.ok_bind]
    constructor
    · intro done
      obtain ⟨_, checked, _⟩ := Checked.bind_ok done
      exact ⟨small, (outputs.mp checked).2⟩
    · intro allowed
      have checked := outputs.mpr ⟨fun cold => absurd cold marker, allowed.2⟩
      show (checkOutputs s.network _ fColdStakingActive 0 (.empty :: s.paidOutputs stake scriptPubKey) >>= _) = _
      rw [checked]
      rfl
  · rw [decide_eq_true (by omega)]
    exact iff_of_false (fun stop => by cases stop) fun allowed => small allowed.1

theorem stakeShare_one (nCredit taken : Int) : stakeShare 1 nCredit taken = lastStakeShare 1 nCredit taken := by
  simp [lastStakeShare, stakeShare]

theorem stakeOutputs_cold (positive : 0 < n) :
    (∀ out ∈ stakeOutputs scriptPubKey n nCredit taken, CScript.isPayToColdStaking out.scriptPubKey = true →
        fColdStakingActive = true ∧ MIN_COLDSTAKING_AMOUNT ≤ out.nValue) ↔
      (CScript.isPayToColdStaking scriptPubKey = true → fColdStakingActive = true ∧
        MIN_COLDSTAKING_AMOUNT ≤ stakeShare n nCredit taken ∧ MIN_COLDSTAKING_AMOUNT ≤ lastStakeShare n nCredit taken) := by
  unfold stakeOutputs
  constructor
  · intro all cold
    obtain ⟨active, last⟩ := all { nValue := lastStakeShare n nCredit taken, scriptPubKey } (by simp) cold
    refine ⟨active, ?_, last⟩
    by_cases single : n = 1
    · subst single
      rw [stakeShare_one]
      exact last
    · have listed := List.mem_replicate.mpr
        (⟨by omega, rfl⟩ : n - 1 ≠ 0 ∧ ({ nValue := stakeShare n nCredit taken, scriptPubKey } : CTxOut) = _)
      exact (all _ (List.mem_append_left _ listed) cold).2
  · intro shares out member cold
    rcases List.mem_append.mp member with member | member
    · obtain rfl := List.eq_of_mem_replicate member
      exact ⟨(shares cold).1, (shares cold).2.1⟩
    · obtain rfl := List.mem_singleton.mp member
      exact ⟨(shares cold).1, (shares cold).2.2⟩

theorem paidOutputs_cold :
    (∀ out ∈ s.paidOutputs stake scriptPubKey, CScript.isPayToColdStaking out.scriptPubKey = true →
        fColdStakingActive = true ∧ MIN_COLDSTAKING_AMOUNT ≤ out.nValue) ↔
      (CScript.isPayToColdStaking scriptPubKey = true → fColdStakingActive = true ∧
        MIN_COLDSTAKING_AMOUNT ≤ stakeShare (s.wallet.splitCount (s.stakeCredit stake)) (s.stakeCredit stake)
          (s.payees.takenFromStake s.network s.nHeight scriptPubKey) ∧
        MIN_COLDSTAKING_AMOUNT ≤ lastStakeShare (s.wallet.splitCount (s.stakeCredit stake)) (s.stakeCredit stake)
          (s.payees.takenFromStake s.network s.nHeight scriptPubKey)) ∧
      ∀ out, s.payees.payeeOutput s.network s.nHeight = some out → CScript.isPayToColdStaking out.scriptPubKey = true →
        fColdStakingActive = true ∧ MIN_COLDSTAKING_AMOUNT ≤ out.nValue := by
  rw [← stakeOutputs_cold (s.wallet.splitCount_bounds (s.stakeCredit stake)).1, paidOutputs]
  simp only [List.forall_mem_append, Option.mem_toList]

end Coinstake

theorem heightScript_bounds {n : Nat} (positive : 0 < n) (small : n < 2 ^ 32) (push : opcode ≤ OP_16)
    (next : CScript.getOp extra = some (opcode, data, [])) (few : extra.length ≤ 2) :
    2 ≤ (CScript.pushInt n ++ extra).length ∧ (CScript.pushInt n ++ extra).length ≤ 8 ∧
      CScript.getSigOpCount (CScript.pushInt n ++ extra) false = 0 ∧ CScript.isZerocoinSpend (CScript.pushInt n ++ extra) = false := by
  obtain ⟨first, pushed, low, head, length, getOp⟩ := CScript.pushInt_push positive small
  obtain ⟨rest, script⟩ : ∃ rest, CScript.pushInt n = first :: rest := by
    cases script : CScript.pushInt n with
    | nil => simp [script] at head
    | cons b rest => exact ⟨rest, by simpa [script] using head⟩
  have nonempty : extra ≠ [] := by
    rintro rfl
    cases next
  have positiveExtra := List.length_pos_iff.mpr nonempty
  refine ⟨?_, ?_, ?_, ?_⟩
  · rw [script, List.cons_append, List.length_cons, List.length_append]
    omega
  · rw [List.length_append]
    omega
  · have one := CScript.sigOpsFrom_getOp (getOp extra) false (CScript.pushInt n ++ extra).length OP_INVALIDOPCODE
    have two := CScript.sigOpsFrom_getOp next false ((CScript.pushInt n ++ extra).length - 1) first
    rw [CScript.sigOps_push low] at one
    rw [CScript.sigOps_push push, CScript.sigOpsFrom_nil] at two
    unfold CScript.getSigOpCount
    omega
  · have other : first ≠ OP_ZEROCOINSPEND := by
      rintro rfl
      exact absurd low (by decide)
    rw [script, CScript.isZerocoinSpend, CScript.startsWithOpcode]
    simpa using other

theorem checkTransaction_coinBase (sizes : ∀ tx, checks.txSize tx = tx.getSerializeSize) (network : Network)
    (fZerocoinActive fColdStakingActive : Bool) (out : CTxOut) (low : 2 ≤ scriptSig.length) (high : scriptSig.length ≤ 8)
    (spend : CScript.isZerocoinSpend scriptSig = false) (mint : out.isZerocoinMint = false)
    (cold : CScript.isPayToColdStaking out.scriptPubKey = false) (short : out.scriptPubKey.length ≤ 67) (value : 0 ≤ out.nValue)
    (range : out.nValue ≤ network.consensus.nMaxMoneyOut) :
    let tx : CTransaction := { hash := 0, vin := [{ prevout := .null, scriptSig }], vout := [out] }
    tx.isCoinBase = true ∧ checkTransaction checks network tx fZerocoinActive fColdStakingActive = .ok () ∧
      tx.getSerializeSize ≤ 135 := by
  intro tx
  have isBase : tx.isCoinBase = true := by
    simp [tx, CTransaction.isCoinBase, CTransaction.containsZerocoins, CTransaction.hasZerocoinSpendInputs, CTxIn.isZerocoinSpend, spend,
      CTransaction.hasZerocoinPublicSpendInputs, CTransaction.hasZerocoinMintOutputs, mint, COutPoint.isNull, COutPoint.null]
  have size : tx.getSerializeSize ≤ 135 := by
    have sig := getSizeOfCompactSize_one (show scriptSig.length < 253 by omega)
    have script := getSizeOfCompactSize_one (show out.scriptPubKey.length < 253 by omega)
    rw [CTransaction.getSerializeSize_eq]
    simp only [tx, List.length_singleton, List.map_singleton, List.sum_singleton, CTxIn.getSerializeSize, CTxOut.getSerializeSize, sig,
      script, getSizeOfCompactSize_one (show 1 < 253 by omega)]
    omega
  refine ⟨isBase, ?_, size⟩
  have outputs : checkOutputs network tx fColdStakingActive 0 tx.vout = .ok () := by
    refine (checkOutputs_iff fColdStakingActive (Or.inl isBase) (Int.le_refl 0) ?_ ?_).mpr ?_
    · simpa [tx] using value
    · simpa [tx] using range
    · simp [tx, cold]
  have inputs : checkDuplicateInputs [] tx.vin = .ok () := by simp [tx, checkDuplicateInputs]
  have shape : checkInputShape tx fZerocoinActive = .ok () := by
    rw [checkInputShape, if_pos isBase]
    exact Checked.refuse_ok.mpr (by simp [tx]; omega)
  have filled : tx.vin.isEmpty = false ∧ tx.vout.isEmpty = false := ⟨rfl, rfl⟩
  unfold checkTransaction
  have limit : MAX_ZEROCOIN_TX_SIZE = 150000 := rfl
  rw [filled.1, filled.2, sizes, decide_eq_false (by omega), outputs, inputs, shape]
  rfl

theorem coinBase_with_payee {network : Network}
    (isBase : CTransaction.isCoinBase { hash := 0, vin := [{ prevout := .null }], vout } = true) :
    checkTransaction checks network { hash := 0, vin := [{ prevout := .null }], vout } fZerocoinActive fColdStakingActive ≠ .ok () := by
  intro accepted
  obtain ⟨_, accepted⟩ := Checked.after_refuse accepted
  obtain ⟨_, accepted⟩ := Checked.after_refuse accepted
  obtain ⟨_, accepted⟩ := Checked.after_refuse accepted
  obtain ⟨_, _, accepted⟩ := Checked.bind_ok accepted
  obtain ⟨_, _, accepted⟩ := Checked.bind_ok accepted
  rw [checkInputShape, if_pos isBase] at accepted
  simp [Checked.refuse_ok] at accepted

section Request

variable {s r}

theorem scriptPubKeyIn_plain (consistent : s.Consistent r) (work : r.fProofOfStake = false) :
    CScript.isZerocoinMint r.scriptPubKeyIn = false ∧ CScript.isPayToColdStaking r.scriptPubKeyIn = false ∧
      r.scriptPubKeyIn.length ≤ 67 ∧ CScript.getSigOpCount r.scriptPubKeyIn false ≤ 1 := by
  rcases consistent.caller work with anyone | ⟨key, size, script⟩
  · rw [anyone]
    decide
  · have short : key.length < 0x4c := by omega
    have length : r.scriptPubKeyIn.length = key.length + 2 := by
      rw [script, CScript.pushData, if_pos short]
      simp
    refine ⟨?_, ?_, by omega, by rw [script]; exact CScript.getSigOpCount_payToPubKey short⟩
    · rw [script, CScript.pushData, if_pos short]
      rcases size with size | size
      · rw [size]; rfl
      · rw [size]; rfl
    · have other : ¬r.scriptPubKeyIn.length = 51 := by omega
      simp [CScript.isPayToColdStaking, other]

theorem workCoinbase_eq (made : s.workCoinbase r nFees = some coinbase) :
    (s.payees.payeeOutput s.network s.nHeight = none ∧
      coinbase = { hash := 0, vin := [{ prevout := .null, scriptSig := CScript.pushInt (s.nHeight + 1 : Nat) ++ [0x00] }]
                   vout := [{ nValue := nFees + s.network.getBlockValue s.nHeight, scriptPubKey := r.scriptPubKeyIn }] }) ∨
      (s.payees.payeeOutput s.network s.nHeight).isSome ∧
        ∃ vout, coinbase = { hash := 0, vin := [{ prevout := .null }], vout } := by
  obtain ⟨vout, filled, alone, paid⟩ := s.payees.fillBlockPayee_work s.network s.nHeight
    (show r.newCoinbase.vout = [{ nValue := -1, scriptPubKey := r.scriptPubKeyIn }] from rfl)
  obtain ⟨txNew, same, rfl⟩ := Option.map_eq_some_iff.mp made
  rw [filled] at same
  obtain rfl := Option.some.inj same
  cases payee : s.payees.payeeOutput s.network s.nHeight with
  | none =>
    obtain ⟨nValue, rfl⟩ := alone payee
    exact Or.inl ⟨rfl, rfl⟩
  | some out =>
    have two := paid (by rw [payee]; rfl)
    refine Or.inr ⟨rfl, vout, ?_⟩
    rw [if_pos (by simp only; omega)]
    rfl

theorem collected_passes (r : TemplateRequest) :
    r.collected.Sublist r.queue ∧ ∀ c ∈ r.collected, c.passes = true ∧ c.tx.isCoinStake = false := by
  obtain ⟨taken, passes⟩ := collect_passes (blockMaxSize r.blockMaxSizeArg) 1000 100
    (r.queue.filter fun c => !c.tx.isCoinBase && !c.tx.isCoinStake)
  refine ⟨taken.trans List.filter_sublist, fun c member => ⟨passes c member, ?_⟩⟩
  have kept := (List.mem_filter.mp (taken.subset member)).2
  simp only [Bool.and_eq_true, Bool.not_eq_true'] at kept
  exact kept.2

theorem collected_room (r : TemplateRequest) :
    (r.collected.map fun c => c.tx.getSerializeSize).sum ≤ r.poolSize ∧
      (r.collected.map fun c => c.tx.getLegacySigOpCount).sum ≤ r.poolSigOps ∧
      10 * r.collected.length ≤ (r.collected.map fun c => c.tx.getSerializeSize).sum := by
  have least : 1000 ≤ blockMaxSize r.blockMaxSizeArg := Nat.le_max_left _ _
  obtain ⟨size, sigOps⟩ := collect_room (blockMaxSize r.blockMaxSizeArg)
    (r.queue.filter fun c => !c.tx.isCoinBase && !c.tx.isCoinStake) least (show 100 ≤ MAX_BLOCK_SIGOPS_CURRENT by decide)
  have taken := (collected_passes r).1
  have sizes := (taken.map fun c => c.tx.getSerializeSize).sum_le_sum fun _ _ => Nat.zero_le _
  have operations := (taken.map fun c => c.tx.getLegacySigOpCount).sum_le_sum fun _ _ => Nat.zero_le _
  have count : ∀ l : List Candidate, 10 * l.length ≤ (l.map fun c => c.tx.getSerializeSize).sum := by
    intro l
    induction l with
    | nil => exact Nat.le_refl _
    | cons c rest ih =>
      have := c.tx.getSerializeSize_ge
      simp only [List.length_cons, List.map_cons, List.sum_cons]
      omega
  refine ⟨le_min sizes ?_, le_min operations ?_, count _⟩
  · unfold TemplateRequest.collected
    omega
  · unfold TemplateRequest.collected
    omega

theorem poolSize_le (r : TemplateRequest) : r.poolSize + 2000 ≤ MAX_BLOCK_SIZE_CURRENT := by
  have limit : MAX_BLOCK_SIZE_CURRENT = 2000000 := rfl
  have most : blockMaxSize r.blockMaxSizeArg ≤ MAX_BLOCK_SIZE_CURRENT - 1000 := by
    unfold blockMaxSize
    omega
  have room : r.poolSize ≤ blockMaxSize r.blockMaxSizeArg - 1000 := Nat.min_le_right _ _
  omega

theorem poolSigOps_le (r : TemplateRequest) : r.poolSigOps + 100 ≤ MAX_BLOCK_SIGOPS_CURRENT := by
  have limit : MAX_BLOCK_SIGOPS_CURRENT = 40000 := rfl
  have room : r.poolSigOps ≤ MAX_BLOCK_SIGOPS_CURRENT - 100 := Nat.min_le_right _ _
  omega

variable {block : Wire.CBlock} {checks : Checks} {fColdStakingActive : Bool} {stake : StakeTry}
  {scriptPubKey scriptSig : CScript}

theorem createNewBlock_work (work : r.fProofOfStake = false) (made : s.createNewBlock r = some block) :
    ∃ coinbase, s.workCoinbase r (r.collected.map Candidate.nTxFees).sum = some coinbase ∧
      block = { toCBlockHeader := s.templateHeader r, vtx := coinbase :: r.collected.map Candidate.tx } ∧
      block.isProofOfStake = false := by
  unfold createNewBlock at made
  simp only [work, Bool.false_eq_true, if_false] at made
  obtain ⟨coinbase, built, same⟩ := Option.bind_eq_some_iff.mp made
  obtain rfl := Option.some.inj same
  refine ⟨coinbase, built, rfl, ?_⟩
  cases taken : r.collected with
  | nil => rfl
  | cons c rest => exact ((collected_passes r).2 c (by rw [taken]; exact List.mem_cons_self)).2

theorem createNewBlock_stake (consistent : s.Consistent r) (staked : r.fProofOfStake = true)
    (made : s.createNewBlock r = some block) :
    ∃ stake scriptPubKey scriptSig, s.Stakeable stake scriptPubKey scriptSig ∧ block.toCBlockHeader = s.templateHeader r ∧
      block.vtx = s.stakeCoinbase :: s.coinStakeOf stake scriptPubKey scriptSig :: r.collected.map Candidate.tx ∧
      ∃ scriptPubKey unsigned, s.wallet.signBlockWith scriptPubKey unsigned = some block.vchBlockSig := by
  unfold createNewBlock at made
  simp only [staked, if_true] at made
  obtain ⟨coinStake, created, made⟩ := Option.bind_eq_some_iff.mp made
  obtain ⟨vchBlockSig, signed, same⟩ := Option.bind_eq_some_iff.mp made
  obtain rfl := Option.some.inj same
  rcases s.createCoinStake_eq created with rfl | ⟨stake, scriptPubKey, scriptSig, used, signature, rfl⟩
  · -- Without inputs the block is not one of proof of stake, and its coinbase pays to no key.
    exfalso
    unfold signBlock at signed
    rw [if_neg (by simp [Wire.CBlock.isProofOfStake, CTransaction.isCoinStake])] at signed
    simp [stakeCoinbase, CTxOut.empty, consistent.keys] at signed
  · obtain ⟨listed, kernel, script⟩ := usedStake_spec used
    refine ⟨stake, scriptPubKey, scriptSig, ⟨listed, kernel, script, _, signature⟩, rfl, rfl, ?_⟩
    unfold signBlock at signed
    split at signed
    · obtain ⟨_, _, signed⟩ := Option.bind_eq_some_iff.mp signed
      obtain ⟨_, _, signed⟩ := Option.bind_eq_some_iff.mp signed
      exact ⟨_, _, signed⟩
    · obtain ⟨_, _, signed⟩ := Option.bind_eq_some_iff.mp signed
      obtain ⟨_, _, signed⟩ := List.exists_of_findSome?_eq_some signed
      exact ⟨_, _, signed⟩

theorem stakeCoinbase_passes (consistent : s.Consistent r)
    (sizes : ∀ tx, checks.txSize tx = tx.getSerializeSize) (fZerocoinActive fColdStakingActive : Bool) :
    s.stakeCoinbase.isCoinBase = true ∧
      checkTransaction checks s.network s.stakeCoinbase fZerocoinActive fColdStakingActive = .ok () ∧
      s.stakeCoinbase.getLegacySigOpCount = 0 ∧ s.stakeCoinbase.getSerializeSize ≤ 135 := by
  have height := consistent.height
  obtain ⟨low, high, none_, spend⟩ := heightScript_bounds (show 0 < s.nHeight + 1 by omega) (by omega) (show (0x01 : UInt8) ≤ OP_16 by decide)
    (show CScript.getOp (CScript.pushData (CScriptNum.serialize 1)) = some (0x01, [0x01], []) by decide) (by decide)
  have range : (0 : Int) ≤ s.network.consensus.nMaxMoneyOut := by cases s.network <;> decide
  obtain ⟨isBase, accepted, small⟩ := checkTransaction_coinBase sizes s.network fZerocoinActive fColdStakingActive .empty low high spend rfl rfl (by decide)
    (by decide) range
  refine ⟨isBase, accepted, ?_, small⟩
  simp only [CTransaction.getLegacySigOpCount, stakeCoinbase, List.map_singleton, List.sum_singleton]
  exact Nat.add_eq_zero_iff.mpr ⟨none_, rfl⟩

theorem small_stake_fits
    (bytes : coinStakeSize (s.wallet.splitCount (s.stakeCredit stake)) scriptPubKey scriptSig
      (s.payees.payeeOutput s.network s.nHeight) ≤ 1675)
    (sigOps : coinStakeSigOps (s.wallet.splitCount (s.stakeCredit stake)) scriptPubKey scriptSig (s.payees.payeeOutput s.network s.nHeight) ≤ 100)
    (shares : CScript.isPayToColdStaking scriptPubKey = false)
    (payee : ∀ out, s.payees.payeeOutput s.network s.nHeight = some out → CScript.isPayToColdStaking out.scriptPubKey = false) :
    s.StakeFits fColdStakingActive (r.poolSize + 325) r.poolSigOps stake scriptPubKey scriptSig := by
  have txLimit : MAX_ZEROCOIN_TX_SIZE = 150000 := rfl
  refine ⟨by omega, fun cold => ?_, fun out added cold => ?_, ?_, ?_⟩
  · rw [shares] at cold
    cases cold
  · rw [payee out added] at cold
    cases cold
  · calc _ ≤ 1675 + (r.poolSize + 325) := Nat.add_le_add_right bytes _
      _ = r.poolSize + 2000 := by omega
      _ ≤ MAX_BLOCK_SIZE_CURRENT := poolSize_le r
  · calc _ ≤ 100 + r.poolSigOps := Nat.add_le_add_right sigOps _
      _ = r.poolSigOps + 100 := Nat.add_comm _ _
      _ ≤ MAX_BLOCK_SIGOPS_CURRENT := poolSigOps_le r

/-- The bytes of a block with proof of stake without its coinstake. -/
def otherBytes (s : TemplateState) (r : TemplateRequest) (nSignature : Nat) : Nat :=
  (s.templateHeader r).getSerializeSize + getSizeOfCompactSize (r.collected.length + 2) + s.stakeCoinbase.getSerializeSize +
    (r.collected.map fun c => c.tx.getSerializeSize).sum + (getSizeOfCompactSize nSignature + nSignature)

theorem otherBytes_le (consistent : s.Consistent r) (signature : nSignature ≤ 72) :
    s.otherBytes r nSignature ≤ r.poolSize + 325 := by
  have limit : MAX_BLOCK_SIZE_CURRENT = 2000000 := rfl
  have free := poolSize_le r
  obtain ⟨taken, _, count⟩ := collected_room r
  obtain ⟨_, _, _, small⟩ := stakeCoinbase_passes consistent (fun tx => show sizeChecks.txSize tx = _ from rfl) true true
  have header : (s.templateHeader r).getSerializeSize ≤ 112 := by
    unfold Wire.CBlockHeader.getSerializeSize
    split <;> omega
  have compact := getSizeOfCompactSize_le (show r.collected.length + 2 ≤ 200002 by omega) (by decide)
  have one := getSizeOfCompactSize_one (show nSignature < 253 by omega)
  unfold otherBytes
  omega

theorem work_passes_iff (consistent : s.Consistent r) (sizes : ∀ tx, checks.txSize tx = tx.getSerializeSize)
    (work : r.fProofOfStake = false) (made : s.createNewBlock r = some block) :
    TemplatePasses checks s.network fZerocoinActive fColdStakingActive block ↔ s.payees.payeeOutput s.network s.nHeight = none := by
  obtain ⟨coinbase, built, rfl, unstaked⟩ := createNewBlock_work work made
  rcases workCoinbase_eq built with ⟨payee, rfl⟩ | ⟨payee, vout, rfl⟩
  · refine iff_of_true ?_ payee
    have height := consistent.height
    obtain ⟨mint, cold, short, one⟩ := scriptPubKeyIn_plain consistent work
    obtain ⟨low, high, none_, spend⟩ := heightScript_bounds (show 0 < s.nHeight + 1 by omega) (by omega)
      (show (0x00 : UInt8) ≤ OP_16 by decide) (show CScript.getOp [0x00] = some (0x00, [], []) by decide) (by decide)
    obtain ⟨taken, passing⟩ := collected_passes r
    obtain ⟨fees, range⟩ := consistent.fees r.collected taken fun c member => (passing c member).1
    have reward := Network.getBlockValue_nonneg s.network s.nHeight
    obtain ⟨isBase, accepted, small⟩ := checkTransaction_coinBase sizes s.network fZerocoinActive fColdStakingActive
      { nValue := (r.collected.map Candidate.nTxFees).sum + s.network.getBlockValue s.nHeight, scriptPubKey := r.scriptPubKeyIn }
      low high spend mint cold short (by simp only; omega) range
    obtain ⟨bytes, sigOps, count⟩ := collected_room r
    have free := poolSize_le r
    have freeSigOps := poolSigOps_le r
    have limit : MAX_BLOCK_SIZE_CURRENT = 2000000 := rfl
    refine ⟨?_, ?_, ?_, ?_⟩
    · have header : (s.templateHeader r).getSerializeSize ≤ 112 := by
        unfold Wire.CBlockHeader.getSerializeSize
        split <;> omega
      have compact := getSizeOfCompactSize_le (show r.collected.length + 1 ≤ 200001 by omega) (by decide)
      rw [Wire.CBlock.getSerializeSize_eq, unstaked, List.map_cons, List.sum_cons, List.map_map, List.length_cons, List.length_map]
      simp only [Function.comp_def, Bool.false_eq_true, if_false]
      omega
    · have here : CTransaction.getLegacySigOpCount
          { hash := 0, vin := [{ prevout := .null, scriptSig := CScript.pushInt (s.nHeight + 1 : Nat) ++ [0x00] }]
            vout := [{ nValue := (r.collected.map Candidate.nTxFees).sum + s.network.getBlockValue s.nHeight,
                       scriptPubKey := r.scriptPubKeyIn }] } ≤ 1 := by
        simp only [CTransaction.getLegacySigOpCount, List.map_singleton, List.sum_singleton]
        omega
      rw [List.map_cons, List.sum_cons, List.map_map]
      simp only [Function.comp_def]
      omega
    · intro tx first
      obtain rfl := Option.some.inj first
      exact ⟨isBase, accepted⟩
    · intro impossible
      rw [unstaked] at impossible
      cases impossible
  · refine iff_of_false (fun passes => ?_) (fun none_ => by rw [none_] at payee; cases payee)
    obtain ⟨isBase, accepted⟩ := passes.coinBase _ rfl
    exact coinBase_with_payee isBase accepted

theorem stake_passes_iff (consistent : s.Consistent r) (sizes : ∀ tx, checks.txSize tx = tx.getSerializeSize)
    (stakeable : s.Stakeable stake scriptPubKey scriptSig) (header : block.toCBlockHeader = s.templateHeader r)
    (vtx : block.vtx = s.stakeCoinbase :: s.coinStakeOf stake scriptPubKey scriptSig :: r.collected.map Candidate.tx) :
    TemplatePasses checks s.network fZerocoinActive fColdStakingActive block ↔
      s.StakeFits fColdStakingActive (s.otherBytes r block.vchBlockSig.length)
        (r.collected.map fun c => c.tx.getLegacySigOpCount).sum stake scriptPubKey scriptSig := by
  obtain ⟨named, value, range⟩ := consistent.stakes stake stakeable.listed
  obtain ⟨isBase, acceptedBase, baseSigOps, _⟩ := stakeCoinbase_passes consistent sizes fZerocoinActive fColdStakingActive
  have isStake : block.isProofOfStake = true := by
    rw [Wire.CBlock.isProofOfStake, vtx]
    exact (coinStakeOf_isCoinStake named scriptPubKey scriptSig).1
  have accepted := checkTransaction_coinStake sizes fZerocoinActive fColdStakingActive scriptPubKey scriptSig named value range consistent.payee
  rw [coinStakeOf_size, paidOutputs_cold] at accepted
  have size : block.getSerializeSize = _ := Wire.CBlock.getSerializeSize_eq block
  rw [header, isStake, if_pos rfl, vtx, List.map_cons, List.sum_cons, List.map_cons, List.sum_cons, List.map_map, coinStakeOf_size,
    List.length_cons, List.length_cons, List.length_map] at size
  have sigOps : (block.vtx.map CTransaction.getLegacySigOpCount).sum =
      0 + (coinStakeSigOps (s.wallet.splitCount (s.stakeCredit stake)) scriptPubKey scriptSig (s.payees.payeeOutput s.network s.nHeight) +
        (r.collected.map (CTransaction.getLegacySigOpCount ∘ Candidate.tx)).sum) := by
    rw [vtx, List.map_cons, List.sum_cons, List.map_cons, List.sum_cons, List.map_map, coinStakeOf_sigOps, baseSigOps]
  simp only [Function.comp_def, Nat.add_assoc, Nat.reduceAdd] at size sigOps
  constructor
  · intro passes
    obtain ⟨small, shares, payee⟩ := accepted.mp (passes.coinStake isStake _ (by rw [vtx]; rfl))
    have bytes := passes.size
    have operations := passes.sigOps
    refine ⟨small, shares, payee, ?_, by omega⟩
    unfold otherBytes
    omega
  · intro fits
    have bytes := fits.blockSize
    have operations := fits.blockSigOps
    unfold otherBytes at bytes
    refine ⟨by omega, by omega, fun tx first => ?_, fun _ tx second => ?_⟩
    · rw [vtx] at first
      obtain rfl := Option.some.inj first
      exact ⟨isBase, acceptedBase⟩
    · rw [vtx] at second
      obtain rfl := Option.some.inj second
      exact accepted.mpr ⟨fits.size, fits.shares, fits.payee⟩

theorem StakeFits.mono (fits : s.StakeFits fColdStakingActive nSize nSigOps stake scriptPubKey scriptSig)
    (bytes : nSize' ≤ nSize) (sigOps : nSigOps' ≤ nSigOps) :
    s.StakeFits fColdStakingActive nSize' nSigOps' stake scriptPubKey scriptSig := by
  have size := fits.blockSize
  have operations := fits.blockSigOps
  exact ⟨fits.size, fits.shares, fits.payee, by omega, by omega⟩

end Request

def minerAt (nHeight : Nat) (currentMasterNode : Option CScript) : TemplateState :=
  { network := .regtest
    nHeight
    payees := { currentMasterNode }
    wallet :=
      { solver := fun _ => none, getPubKey := fun _ => none, nStakeSplitThreshold := 0, signSignature := fun _ => none
        signBlockWith := fun _ _ => none } }

def mineToAnyone : TemplateRequest := { scriptPubKeyIn := [OP_1], fProofOfStake := false }

theorem minerAt_consistent (currentMasterNode : Option CScript) : (minerAt 150 currentMasterNode).Consistent mineToAnyone where
  height := show 150 + 1 < 2 ^ 31 by decide
  caller := fun _ => Or.inl rfl
  fees := by
    intro taken sub _
    obtain rfl := List.sublist_nil.mp sub
    show (0 : Int) ≤ 0 ∧ 0 + Network.regtest.getBlockValue 150 ≤ Network.regtest.consensus.nMaxMoneyOut
    decide
  payee := by
    intro out added
    cases currentMasterNode with
    | none => cases added
    | some payee =>
      obtain rfl := Option.some.inj added
      show 0 ≤ Network.regtest.masternodePaymentAt 150
      decide
  stakes := nofun
  keys := fun _ => rfl

def stakerScript : CScript := CScript.pushData (List.replicate 33 0x02) ++ [OP_CHECKSIG]

def staker : TemplateState :=
  { network := .regtest
    nHeight := 300
    payees := { currentMasterNode := some [OP_1] }
    wallet :=
      { solver := CScript.solver
        getPubKey := fun _ => none
        nStakeSplitThreshold := 2000 * COIN
        signSignature := fun _ => some (CScript.pushData (List.replicate 72 0x30))
        signBlockWith := fun scriptPubKey _ => if scriptPubKey = stakerScript then some (List.replicate 71 0x30) else none }
    stakes := [{ prevout := ⟨5, 1⟩, out := { nValue := 5000 * COIN, scriptPubKey := stakerScript }, fKernelFound := true }] }

def stakeRequest : TemplateRequest := { scriptPubKeyIn := [], fProofOfStake := true }

theorem staker_consistent : staker.Consistent stakeRequest where
  height := show 300 + 1 < 2 ^ 31 by decide
  caller := fun work => absurd work (by decide)
  fees := by
    intro taken sub _
    obtain rfl := List.sublist_nil.mp sub
    show (0 : Int) ≤ 0 ∧ 0 + Network.regtest.getBlockValue 300 ≤ Network.regtest.consensus.nMaxMoneyOut
    decide
  payee := by
    intro out added
    obtain rfl := Option.some.inj added
    show 0 ≤ Network.regtest.masternodePaymentAt 300
    decide
  stakes := by
    intro stake listed
    obtain rfl := List.mem_singleton.mp listed
    exact ⟨by decide, by decide, by decide⟩
  keys := fun _ => rfl

theorem staker_fits : staker.WalletFits stakeRequest true where
  signature := by
    intro scriptPubKey block vchBlockSig signed
    simp only [staker, Option.ite_none_right_eq_some] at signed
    obtain ⟨_, same⟩ := signed
    obtain rfl := Option.some.inj same
    decide
  stakes := by
    intro stake scriptPubKey scriptSig stakeable
    obtain rfl := List.mem_singleton.mp stakeable.listed
    obtain rfl : stakerScript = scriptPubKey := Option.some.inj stakeable.script
    obtain ⟨txNew, signature⟩ := stakeable.signature
    obtain rfl := Option.some.inj signature
    refine small_stake_fits (by decide) (by decide) (by decide) fun out added => ?_
    obtain rfl := Option.some.inj added
    rfl

end TemplateState

end SchillingCoin
