import SchillingCoin.Coins.View
import SchillingCoin.Validation.CheckBlock

/-!
Connecting and disconnecting a block, after `CheckInputs`, `UpdateCoins`, `ConnectBlock` and
`DisconnectBlock` in `main.cpp`. The block is connected with `fJustCheck` unset.
-/

namespace SchillingCoin

open Checked (refuse)

abbrev CTxUndo := List CTxInUndo

def orAbort {α : Type} (reason : String) : Option α → Except Reject α
  | none => .error (.abort reason)
  | some a => .ok a

/-- The first loop of `CheckInputs`: maturity and range of the values, with the total so far. -/
def checkInputCoins (network : Network) (view : CoinsView) (nSpendHeight : Int) :
    Int → List CTxIn → Except Reject Int
  | nValueIn, [] => .ok nValueIn
  | nValueIn, txin :: rest =>
    let coins := view.coinsAt txin.prevout.hash
    let nValue := (coins.vout.getD txin.prevout.n .null).nValue
    let nTotal := int64 (nValueIn + nValue)
    if (coins.fCoinBase || coins.fCoinStake) &&
        decide (nSpendHeight - coins.nHeight < network.consensus.nCoinbaseMaturity) then
      .error (.invalid "bad-txns-premature-spend-of-coinbase")
    else if !network.consensus.moneyRange nValue || !network.consensus.moneyRange nTotal then
      .error (.dos 100 "bad-txns-inputvalues-outofrange")
    else checkInputCoins network view nSpendHeight nTotal rest

/-- A coinstake is exempt: its reward is checked with the block. -/
def checkFee (network : Network) (tx : CTransaction) (nValueIn : Int) : Except Reject Unit :=
  if tx.isCoinStake then .ok ()
  else do
    let nValueOut ← orAbort "GetValueOut" tx.getValueOut
    let nTxFee := int64 (nValueIn - nValueOut)
    refuse (decide (nValueIn < nValueOut)) (.dos 100 "bad-txns-in-belowout")
    refuse (decide (nTxFee < 0)) (.dos 100 "bad-txns-fee-negative")
    refuse (!network.consensus.moneyRange nTxFee) (.dos 100 "bad-txns-fee-outofrange")

variable (checks : Checks) (view : CoinsView) (s : ChainState) (ctx : ConnectContext) (block : CBlock)
  (pindex : CBlockIndex) (st : Bool × CoinsView)

def checkScripts (tx : CTransaction) (cltv : Bool) : Bool :=
  (tx.vin.zipIdx).all fun i =>
    checks.verifyScript tx i.2 ((view.coinsAt i.1.prevout.hash).vout.getD i.1.prevout.n .null) cltv

def checkInputs (checks : Checks) (view : CoinsView) (tx : CTransaction) (fScriptChecks cltv : Bool) : Except Reject Unit :=
  if tx.isCoinBase || tx.hasZerocoinSpendInputs then .ok ()
  else do
    refuse (!view.haveInputs tx) (.invalid "inputs unavailable")
    let pindexPrev ← orAbort "mapBlockIndex.find" (s.mapBlockIndex.lookup view.hashBlock)
    let nValueIn ← checkInputCoins s.network view (pindexPrev.nHeight + 1) 0 tx.vin
    checkFee s.network tx nValueIn
    refuse (fScriptChecks && !checkScripts checks view tx cltv) (.dos 100 "mandatory-script-verify-flag-failed")

structure BlockTotals where
  nFees : Int := 0
  nValueIn : Int := 0
  nValueOut : Int := 0
  nSigOps : Nat := 0
  deriving DecidableEq, Repr

structure ConnectState where
  view : CoinsView
  vtxundo : List CTxUndo := []
  totals : BlockTotals := {}

structure ConnectContext where
  chain : ChainState
  checks : Checks
  nTime : Int
  nHeight : Nat
  fScriptChecks : Bool
  fCLTVIsActivated : Bool

/-- The fees of the block with those of one transaction. A coinstake pays none. -/
def addFee (nFees nValueIn : Int) (tx : CTransaction) : Except Reject Int :=
  if tx.isCoinStake then .ok nFees
  else do
    let nValueOut ← orAbort "GetValueOut" tx.getValueOut
    return int64 (nFees + int64 (nValueIn - nValueOut))

/-- The inputs of a transaction that is neither a coinbase nor a zerocoin spend. -/
def connectInputs (view : CoinsView) (totals : BlockTotals) (tx : CTransaction) :
    Except Reject BlockTotals := do
  refuse (!view.haveInputs tx) (.dos 100 "bad-txns-inputs-missingorspent")
  let spent ← orAbort "GetOutputFor" (tx.vin.mapM view.getOutputFor)
  let nSigOps := totals.nSigOps + ((tx.vin.zip spent).map fun i =>
    if CScript.isPayToScriptHash i.2.scriptPubKey then ctx.checks.p2shSigOps i.1 i.2 else 0).sum
  refuse (decide (nSigOps > MAX_BLOCK_SIGOPS_CURRENT)) (.dos 100 "bad-blk-sigops")
  let nValueIn ← orAbort "GetOutputFor" (view.getValueIn tx)
  let nFees ← addFee totals.nFees nValueIn tx
  checkInputs ctx.chain ctx.checks view tx ctx.fScriptChecks ctx.fCLTVIsActivated
  return { totals with nFees, nSigOps, nValueIn := int64 (totals.nValueIn + nValueIn) }

def connectTxInputs (view : CoinsView) (totals : BlockTotals) (tx : CTransaction) : Except Reject BlockTotals :=
  if tx.hasZerocoinSpendInputs then
    .ok { totals with nValueIn := int64 (totals.nValueIn + ctx.checks.zerocoinSpent tx) }
  else if !tx.isCoinBase then connectInputs ctx view totals tx
  else .ok totals

/-- One pass of the loop of `ConnectBlock`. The undo records of the first transaction are dropped. -/
def connectTx (i : Nat) (st : ConnectState) (tx : CTransaction) : Except Reject ConnectState := do
  refuse ((st.view.accessCoins tx.hash).any fun coins => !coins.isPruned) (.dos 100 "bad-txns-BIP30")
  let nSigOps := st.totals.nSigOps + ctx.checks.getLegacySigOpCount tx
  refuse (decide (nSigOps > MAX_BLOCK_SIGOPS_CURRENT)) (.dos 100 "bad-blk-sigops")
  refuse (decide (ctx.nTime > ctx.chain.zerocoinMaintenance) && !ctx.chain.isInitialBlockDownload && tx.containsZerocoins)
    (.dos 100 "")
  refuse (tx.hasZerocoinMintOutputs && !ctx.checks.publicCoinsValid tx) (.dos 100 "")
  let totals ← connectTxInputs ctx st.view { st.totals with nSigOps } tx
  let nValueOut ← orAbort "GetValueOut" tx.getValueOut
  let (view, txundo) ← orAbort "UpdateCoins" (st.view.updateCoins tx ctx.nHeight)
  return { view
           vtxundo := if i = 0 then st.vtxundo else st.vtxundo ++ [txundo]
           totals := { totals with nValueOut := int64 (totals.nValueOut + nValueOut) } }

def connectTxs (ctx : ConnectContext) : Nat → ConnectState → List CTransaction → Except Reject ConnectState
  | _, st, [] => .ok st
  | i, st, tx :: rest => do
    let st ← connectTx ctx i st tx
    connectTxs ctx (i + 1) st rest

/-- What `ConnectBlock` leaves: the view, the undo data, and the supply it stores in the index entry.
The genesis block has no undo data. -/
structure Connected where
  view : CoinsView
  blockundo : Option (List CTxUndo)
  nMoneySupply : Int
  budget : CBudgetManager

def connectTransactions (checks : Checks) (block : CBlock) (pindex pprev : CBlockIndex) (view : CoinsView) :
    Except Reject ConnectState :=
  let fScriptChecks := decide (pindex.nHeight ≥ s.totalBlocksEstimate)
  let fCLTVIsActivated := fScriptChecks && decide (pprev.nHeight ≥ s.network.consensus.height_start_BIP65)
  connectTxs
    { chain := s, checks, nTime := block.nTime, nHeight := pindex.nHeight, fScriptChecks, fCLTVIsActivated }
    0 { view } block.vtx

def connectBlock (checks : Checks) (block : CBlock) (pindex : CBlockIndex) (pprev : Option CBlockIndex) (view : CoinsView) :
    Except Reject Connected := do
  let budget ← s.checkBlock checks block true
  refuse (decide (((pprev.map CBlockIndex.hash).getD 0) ≠ view.hashBlock)) (.abort "hashPrevBlock == view.GetBestBlock()")
  if block.hash = s.hashGenesisBlock then
    return { view := view.setBestBlock pindex.hash, blockundo := none, nMoneySupply := pindex.nMoneySupply, budget }
  else
    refuse (decide (pindex.nHeight ≤ s.network.consensus.height_last_PoW) && block.isProofOfStake)
      (.dos 100 "PoS-early")
    refuse (decide (pindex.nHeight > s.network.consensus.height_last_PoW) && block.isProofOfWork)
      (.dos 100 "PoW-ended")
    let pprev ← orAbort "pindex->pprev" pprev
    let st ← connectTransactions s checks block pindex pprev view
    let nMoneySupply := int64 (int64 (pprev.nMoneySupply + st.totals.nValueOut) - st.totals.nValueIn)
    let nMint := int64 (int64 (nMoneySupply - pprev.nMoneySupply) + st.totals.nFees)
    let nBlockValue := s.network.getBlockValue pprev.nHeight
    let nExpectedMint := if block.isProofOfWork then int64 (nBlockValue + st.totals.nFees) else nBlockValue
    refuse (!({ s with budget }).isBlockValueValid block nExpectedMint nMint) (.dos 100 "bad-cb-amount")
    return { view := st.view.setBestBlock pindex.hash, blockundo := some st.vtxundo, nMoneySupply, budget }

/-- Restores the output an input spent. `fClean` turns false on an inconsistency, which does not stop
the loop. -/
def applyTxInUndo (out : COutPoint) (undo : CTxInUndo) : Bool × CoinsView :=
  let coins := st.2.coinsAt out.hash
  let fClean := st.1 && (if undo.nHeight ≠ 0 then coins.isPruned else !coins.isPruned)
  let coins : CCoins :=
    if undo.nHeight ≠ 0 then
      { fCoinBase := undo.fCoinBase, nHeight := undo.nHeight, nVersion := undo.nVersion }
    else coins
  let fClean := fClean && !coins.isAvailable out.n
  (fClean, st.2.modifyCoins out.hash fun _ =>
    { coins with vout := (Trimmed.grow .null (out.n + 1) coins.vout).set out.n undo.txout })

/-- Removes the outputs of a transaction, after comparing them with the block. -/
def removeOutputs (nHeight : Nat) (st : Bool × CoinsView) (tx : CTransaction) : Bool × CoinsView :=
  let outs := (st.2.coinsAt tx.hash).clearUnspendable
  let outsBlock := CCoins.fromTx tx nHeight
  let outs := if outsBlock.nVersion < 0 then { outs with nVersion := outsBlock.nVersion } else outs
  (st.1 && outs.eqv outsBlock, st.2.modifyCoins tx.hash CCoins.clear)

/-- One pass of the loop of `DisconnectBlock`, over a transaction and its undo records. -/
def disconnectTx (nHeight : Nat) (st : Bool × CoinsView) (tx : CTransaction) (txundo : CTxUndo) :
    Except Reject (Bool × CoinsView) :=
  let st := removeOutputs nHeight st tx
  if !tx.isCoinBase && !tx.hasZerocoinSpendInputs then
    if txundo.length ≠ tx.vin.length then
      .error (.invalid "DisconnectBlock() : transaction and undo data inconsistent")
    else .ok ((tx.vin.zip txundo).foldr (fun i st => applyTxInUndo st i.1.prevout i.2) st)
  else .ok st

def disconnectTxs (nHeight : Nat) (st : Bool × CoinsView) : List (CTransaction × CTxUndo) → Except Reject (Bool × CoinsView)
  | [] => .ok st
  | (tx, txundo) :: rest => do
    let st ← disconnectTxs nHeight st rest
    disconnectTx nHeight st tx txundo

/-- `DisconnectBlock` on the undo data of the block: whether it was clean, and the view. -/
def disconnectBlock (pprev : CBlockIndex) (blockUndo : List CTxUndo) (view : CoinsView) :
    Except Reject (Bool × CoinsView) := do
  refuse (decide (pindex.hash ≠ view.hashBlock)) (.abort "pindex->GetBlockHash() == view.GetBestBlock()")
  refuse (decide (blockUndo.length + 1 ≠ block.vtx.length))
    (.invalid "DisconnectBlock() : block and undo data inconsistent")
  let (fClean, view) ← disconnectTxs pindex.nHeight (true, view) (block.vtx.zip ([] :: blockUndo))
  return (fClean, view.setBestBlock pprev.hash)

end SchillingCoin
