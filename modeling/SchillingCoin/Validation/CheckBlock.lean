import SchillingCoin.Lib.Checked
import SchillingCoin.Primitives.Block
import SchillingCoin.Chain.BlockIndex
import SchillingCoin.Masternode.Budget

/-!
The checks of a block that do not read the coins view: `CheckTransaction` in
`consensus/tx_verify.cpp`, the payee and value checks in `masternode-payments.cpp`, and `CheckBlock`
in `main.cpp`.
-/

namespace SchillingCoin

open Checked (refuse)

def MAX_BLOCK_SIGOPS_CURRENT : Nat := MAX_BLOCK_SIZE_CURRENT / 50
def MAX_BLOCK_SIGOPS_LEGACY : Nat := 1000000 / 50
def MAX_ZEROCOIN_TX_SIZE : Nat := 150000
def MIN_COLDSTAKING_AMOUNT : Int := 1 * COIN

inductive Spork where
  | swiftTxBlockFiltering
  | masternodePaymentEnforcement
  | masternodeBudgetEnforcement
  | enableSuperblocks
  | zerocoinMaintenanceMode
  | coldStakingEnforcement
  deriving DecidableEq, Repr

/-- Why a block or a transaction is not accepted. `abort` is an assertion, an exception or an access
out of bounds. -/
inductive Reject where
  | dos (nDoS : Nat) (reason : String)
  | invalid (reason : String)
  | abort (reason : String)
  deriving DecidableEq, Repr

/-- The functions the checks call whose results do not depend on the state modelled here. -/
structure Checks where
  checkBlockHeader : CBlock → (fCheckPOW : Bool) → Bool
  /-- The root in the header is that of the transactions, and whether the tree was mutated. -/
  merkleRootMatches : CBlock → Bool
  merkleTreeMutated : CBlock → Bool
  blockSize : CBlock → Nat
  txSize : CTransaction → Nat
  getLegacySigOpCount : CTransaction → Nat
  /-- The signature operations of an input, given the output it spends. -/
  p2shSigOps : CTxIn → CTxOut → Nat
  verifyScript : CTransaction → Nat → CTxOut → (cltv : Bool) → Bool
  getTransaction : uint256 → Option CTransaction
  /-- The zerocoins that a transaction mints can be parsed. -/
  publicCoinsValid : CTransaction → Bool
  zerocoinSpent : CTransaction → Int

structure ChainState where
  network : Network
  hashGenesisBlock : uint256
  mapBlockIndex : StdMap uint256 CBlockIndex := ∅
  /-- `chainActive.Tip()`. -/
  tip : Option CBlockIndex := none
  isInitialBlockDownload : Bool := false
  /-- `masternodeSync.IsSynced()`. -/
  isSynced : Bool := false
  isSporkActive : Spork → Bool := fun _ => false
  /-- The value of `SPORK_16_ZEROCOIN_MAINTENANCE_MODE`. -/
  zerocoinMaintenance : Int := 0
  /-- `Checkpoints::GetTotalBlocksEstimate()`. -/
  totalBlocksEstimate : Nat := 0
  budget : CBudgetManager := {}
  masternodePayments : CMasternodePayments := {}
  mapLockedInputs : StdMap COutPoint uint256 := ∅

/-- The loop of `CheckTransaction` over the outputs, with the total so far. -/
def checkOutputs (network : Network) (tx : CTransaction) (fColdStakingActive : Bool) :
    Int → List CTxOut → Except Reject Unit
  | _, [] => .ok ()
  | nValueOut, txout :: rest =>
    if txout.isEmpty && !tx.isCoinBase && !tx.isCoinStake then .error (.dos 100 "")
    else if txout.nValue < 0 then .error (.dos 100 "bad-txns-vout-negative")
    else if txout.nValue > network.consensus.nMaxMoneyOut then .error (.dos 100 "bad-txns-vout-toolarge")
    else
      let nValueOut := int64 (nValueOut + txout.nValue)
      if !network.consensus.moneyRange nValueOut then .error (.dos 100 "bad-txns-txouttotal-toolarge")
      else if CScript.isPayToColdStaking txout.scriptPubKey && !fColdStakingActive then
        .error (.dos 10 "bad-txns-cold-stake")
      else if CScript.isPayToColdStaking txout.scriptPubKey && decide (txout.nValue < MIN_COLDSTAKING_AMOUNT) then
        .error (.dos 100 "bad-txns-cold-stake")
      else checkOutputs network tx fColdStakingActive nValueOut rest

/-- The loop of `CheckTransaction` over the inputs, with the outpoints seen. Zerocoin spends may share one. -/
def checkDuplicateInputs : List COutPoint → List CTxIn → Except Reject Unit
  | _, [] => .ok ()
  | seen, txin :: rest =>
    if txin.prevout ∈ seen then .error (.dos 100 "bad-txns-inputs-duplicate")
    else checkDuplicateInputs (if txin.isZerocoinSpend then seen else txin.prevout :: seen) rest

def checkInputShape (tx : CTransaction) (fZerocoinActive : Bool) : Except Reject Unit :=
  if tx.isCoinBase then
    refuse (tx.vin.any fun i => decide (i.scriptSig.length < 2) || decide (i.scriptSig.length > 150))
      (.dos 100 "bad-cb-length")
  else
    refuse (tx.vin.any fun i => i.prevout.isNull && (fZerocoinActive && !i.isZerocoinSpend))
      (.dos 10 "bad-txns-prevout-null")

def checkTransaction (checks : Checks) (network : Network) (tx : CTransaction) (fZerocoinActive : Bool)
    (fColdStakingActive : Bool) : Except Reject Unit := do
  refuse tx.vin.isEmpty (.dos 10 "bad-txns-vin-empty")
  refuse tx.vout.isEmpty (.dos 10 "bad-txns-vout-empty")
  refuse (decide (checks.txSize tx > MAX_ZEROCOIN_TX_SIZE)) (.dos 100 "bad-txns-oversize")
  checkOutputs network tx fColdStakingActive 0 tx.vout
  checkDuplicateInputs [] tx.vin
  checkInputShape tx fZerocoinActive

theorem checkDuplicateInputs_nodup (spendFree : ∀ i ∈ vin, i.isZerocoinSpend = false) (distinct : seen.Nodup)
    (h : checkDuplicateInputs seen vin = .ok ()) : (vin.map CTxIn.prevout ++ seen).Nodup := by
  induction vin generalizing seen with
  | nil => simpa using distinct
  | cons txin vin ih =>
    simp only [checkDuplicateInputs] at h
    split at h
    · cases h
    · rename_i fresh
      rw [spendFree txin (by simp)] at h
      have rest := ih (fun i mem => spendFree i (by simp [mem])) (List.nodup_cons.mpr ⟨fresh, distinct⟩) h
      exact (List.perm_middle.nodup_iff).mp rest

namespace ChainState

variable (s : ChainState) (block : CBlock) (checks : Checks)

def heightOf (pindexPrev : CBlockIndex) (block : CBlock) : Nat :=
  if pindexPrev.hash = block.hashPrevBlock then pindexPrev.nHeight + 1
  else match s.mapBlockIndex.lookup block.hashPrevBlock with
    | some prev => prev.nHeight + 1
    | none => 0

/-- `IsBlockValueValid` compares the minted value with the expected one, rather than waiving it. -/
def valueLimited : Bool :=
  match s.tip with
  | none => false
  | some pindexPrev =>
    let nHeight := s.heightOf pindexPrev block
    if !s.isSynced then !decide (nHeight % s.network.consensus.nBudgetCycleBlocks < 100)
    else if !s.isSporkActive .enableSuperblocks then true
    else !s.budget.isBudgetPaymentBlock nHeight

def isBlockValueValid (nExpectedValue nMinted : Int) : Bool :=
  match s.tip with
  | none => true
  | some pindexPrev =>
    let nHeight := s.heightOf pindexPrev block
    if !s.isSynced then
      if nHeight % s.network.consensus.nBudgetCycleBlocks < 100 then true
      else !decide (nMinted > nExpectedValue)
    else if !s.isSporkActive .enableSuperblocks then decide (nMinted ≤ nExpectedValue)
    else if s.budget.isBudgetPaymentBlock nHeight then true
    else !decide (nMinted > nExpectedValue)

def rewardTx (nBlockHeight : Nat) : Option CTransaction :=
  if nBlockHeight > s.network.consensus.height_last_PoW then block.vtx[1]? else block.vtx[0]?

/-- The payee check and the budget state after it. -/
def isBlockPayeeValid (nBlockHeight : Nat) : Except Reject (Bool × CBudgetManager) :=
  if !s.isSynced then .ok (true, s.budget)
  else if nBlockHeight = 1040001 then .ok (true, s.budget)
  else match s.rewardTx block nBlockHeight with
    | none => .error (.abort "block.vtx[1]")
    | some txNew =>
      let masternodePaid (budget : CBudgetManager) : Except Reject (Bool × CBudgetManager) :=
        if s.masternodePayments.isTransactionValid s.network txNew nBlockHeight then .ok (true, budget)
        else .ok (!s.isSporkActive .masternodePaymentEnforcement, budget)
      if s.isSporkActive .enableSuperblocks && s.budget.isBudgetPaymentBlock nBlockHeight then
        let checked := s.budget.isTransactionValid txNew nBlockHeight
        match checked.1 with
        | .valid => .ok (true, checked.2)
        | .inValid =>
          if s.isSporkActive .masternodeBudgetEnforcement then .ok (false, checked.2) else masternodePaid checked.2
        | .doublePayment => masternodePaid checked.2
        | .voteThreshold => masternodePaid checked.2
      else masternodePaid s.budget

/-- The last output of a cold stake pays a masternode or a budget, unless it is like the one before. -/
def checkColdStakeFreeOutput (tx : CTransaction) (nHeight : Nat) : Bool :=
  if !tx.hasP2CSOutputs then true
  else match tx.vout.reverse with
    | lastOut :: before :: _ :: _ =>
      if lastOut.scriptPubKey = before.scriptPubKey then true
      else if lastOut.nValue = Network.getMasternodePayment nHeight (s.network.getBlockValue nHeight) then true
      else if s.network = .regtest then false
      else if !s.isSynced then
        match tx.vin.head?.bind fun i => (checks.getTransaction i.prevout.hash).bind fun txPrev => txPrev.vout[i.prevout.n]? with
        | none => false
        | some out =>
          let amtIn := int64 (out.nValue + s.network.getBlockValue (nHeight - 1))
          let amtOut := (tx.vout.drop 1).dropLast.foldl (fun sum o => int64 (sum + o.nValue)) 0
          decide (amtOut = amtIn)
      else if s.budget.isBudgetPaymentBlock nHeight then s.isSporkActive .enableSuperblocks
      else false
    | _ => true

/-- The first transaction is the only coinbase; a proof of stake has an empty coinbase and one coinstake. -/
def checkBlockShape : Except Reject Unit :=
  match block.vtx with
  | [] => .error (.dos 100 "bad-cb-missing")
  | coinbase :: rest => do
    refuse (!coinbase.isCoinBase) (.dos 100 "bad-cb-missing")
    refuse (rest.any CTransaction.isCoinBase) (.dos 100 "bad-cb-multiple")
    refuse (block.isProofOfStake && !(coinbase.vout.length == 1 && coinbase.vout.all CTxOut.isEmpty)) (.dos 100 "")
    refuse (block.isProofOfStake && (rest.drop 1).any CTransaction.isCoinStake) (.dos 100 "")

def checkLockedInputs : Except Reject Unit :=
  refuse (s.isSporkActive .swiftTxBlockFiltering && block.vtx.any fun tx => !tx.isCoinBase && tx.vin.any fun i =>
    (s.mapLockedInputs.lookup i.prevout).any fun locked => locked != tx.hash) (.dos 0 "conflicting-tx-ix")

/-- The payments are checked against the block's own height once the node is past its initial download. -/
def paymentsChecked : Option Nat :=
  match s.tip with
  | none => none
  | some pindexPrev =>
    let nHeight := s.heightOf pindexPrev block
    if nHeight ≠ 0 ∧ !s.isInitialBlockDownload then some nHeight else none

def checkBlockPayments (block : CBlock) : Except Reject CBudgetManager :=
  match s.paymentsChecked block with
  | none => .ok s.budget
  | some nHeight => do
    refuse (block.isProofOfStake && (block.vtx[1]?).any fun tx => !s.checkColdStakeFreeOutput checks tx nHeight)
      (.dos 0 "bad-p2cs-outs")
    let (valid, budget) ← s.isBlockPayeeValid block nHeight
    refuse (!valid) (.dos 0 "bad-cb-payee")
    return budget

def checkBlock (block : CBlock) (fCheckMerkleRoot : Bool) :
    Except Reject CBudgetManager := do
  refuse (!checks.checkBlockHeader block (!block.isProofOfStake)) (.dos 100 "bad-header")
  refuse (fCheckMerkleRoot && !checks.merkleRootMatches block) (.dos 100 "bad-txnmrklroot")
  refuse (fCheckMerkleRoot && checks.merkleTreeMutated block) (.dos 100 "bad-txns-duplicate")
  refuse (block.vtx.isEmpty || decide (block.vtx.length > MAX_BLOCK_SIZE_CURRENT) ||
    decide (checks.blockSize block > MAX_BLOCK_SIZE_CURRENT)) (.dos 100 "bad-blk-length")
  checkBlockShape block
  s.checkLockedInputs block
  let fZerocoinActive := decide (block.nTime > s.network.consensus.ZC_TimeStart)
  let fColdStakingActive := (s.paymentsChecked block).isNone || s.isSporkActive .coldStakingEnforcement
  let budget ← s.checkBlockPayments checks block
  Checked.all (fun tx => checkTransaction checks s.network tx fZerocoinActive fColdStakingActive) block.vtx
  let nMaxBlockSigOps := if fZerocoinActive then MAX_BLOCK_SIGOPS_CURRENT else MAX_BLOCK_SIGOPS_LEGACY
  refuse (decide ((block.vtx.map checks.getLegacySigOpCount).sum > nMaxBlockSigOps)) (.dos 100 "bad-blk-sigops")
  return budget

end ChainState

end SchillingCoin
