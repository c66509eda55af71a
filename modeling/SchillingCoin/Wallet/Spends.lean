import SchillingCoin.Lib.Worklist
import SchillingCoin.Swift.SwiftTX
import SchillingCoin.Chain.BlockIndex

/-!
The transactions of the wallet and the index of what they spend, after `wallet.cpp`: `mapWallet`, `mapTxSpends`, and
the functions that write them. Caches of balances, notifications and the wallet's file are left out.
-/

namespace SchillingCoin

structure CWalletTx where
  tx : CTransaction
  hashBlock : uint256 := 0
  nIndex : Int := -1
  mapValue : List (String × String) := []
  vOrderForm : List (String × String) := []
  nTimeReceived : Int := 0
  nTimeSmart : Int := 0
  fFromMe : Bool := false
  strFromAccount : String := ""
  nOrderPos : Int := -1
  deriving DecidableEq, Repr

structure WalletContext where
  mapBlockIndex : StdMap uint256 CBlockIndex
  chainActive : CChain
  /-- `mempool.exists`. -/
  inMempool : uint256 → Bool
  getTransactionLockSignatures : uint256 → Int
  nSwiftTXDepth : Int
  getAdjustedTime : Int
  isMine : CTransaction → Bool
  isFromMe : CTransaction → Bool

namespace CWalletTx

def ABANDON_HASH : uint256 := 1

variable (wtx : CWalletTx) (ctx : WalletContext)

def getHash : uint256 := wtx.tx.hash

def hashUnset : Bool := wtx.hashBlock == 0 || wtx.hashBlock == ABANDON_HASH

def isAbandoned : Bool := wtx.hashBlock == ABANDON_HASH

/-- `GetDepthInMainChain` with `enableIX` set. A locked transaction counts as deeper. -/
def getDepthInMainChain (wtx : CWalletTx) : Int :=
  if wtx.hashUnset then 0
  else
    let nResult : Int := match ctx.mapBlockIndex.lookup wtx.hashBlock with
      | none => 0
      | some pindex =>
        if !ctx.chainActive.contains pindex then 0
        else (if wtx.nIndex = -1 then -1 else 1) * ((ctx.chainActive.vChain.length : Int) - 1 - pindex.nHeight + 1)
    if nResult < 6 ∧ ctx.getTransactionLockSignatures wtx.getHash ≥ SWIFTTX_SIGNATURES_REQUIRED then ctx.nSwiftTXDepth + nResult
    else nResult

def getDepthAndMempool (wtx : CWalletTx) : Int × Bool :=
  let ret := wtx.getDepthInMainChain ctx
  (ret, ret == 0 && !ctx.inMempool wtx.getHash)

def updateTimeSmart (wtx : CWalletTx) : CWalletTx :=
  { wtx with nTimeSmart :=
      if wtx.hashBlock = 0 then wtx.nTimeReceived
      else ((ctx.mapBlockIndex.lookup wtx.hashBlock).map fun pindex => (pindex.nTime : Int)).getD wtx.nTimeReceived }

def setMerkleBranch (block : uint256 × List CTransaction) (wtx : CWalletTx) : CWalletTx :=
  { wtx with
    hashBlock := block.1
    nIndex := if wtx.tx ∈ block.2 then (block.2.idxOf wtx.tx : Int) else -1 }

end CWalletTx

/-- How a call ends the node: a lookup in `mapWallet` for a pair of the index that finds nothing, or another assertion. -/
inductive WalletAbort where
  | lookup
  | assertion
  /-- More rounds than the model gives to a loop. -/
  | rounds
  deriving DecidableEq, Repr

structure CWallet where
  mapWallet : StdMap uint256 CWalletTx := ∅
  mapTxSpends : List (COutPoint × uint256) := []
  setLockedCoins : List COutPoint := []
  nOrderPosNext : Int := 0
  fFileBacked : Bool := true

namespace CWallet

variable (w : CWallet) (outpoint : COutPoint) (hash : uint256) (ctx : WalletContext)
  (hashBlock : uint256)

def spendersOf : List uint256 :=
  (w.mapTxSpends.filter fun p => p.1 == outpoint).map Prod.snd

def childrenOf : List uint256 :=
  (w.mapTxSpends.filter fun p => p.1.hash == hash).map Prod.snd

def modify (change : CWalletTx → CWalletTx) : CWallet :=
  match w.mapWallet.lookup hash with
  | none => w
  | some wtx => { w with mapWallet := w.mapWallet.insert hash (change wtx) }

/-- The first loop of `SyncMetaData`: the oldest transaction of the range. -/
def oldest (w : CWallet) : List uint256 → Int → Option (uint256 × CWalletTx) → Except WalletAbort (Option (uint256 × CWalletTx))
  | [], _, copyFrom => .ok copyFrom
  | hash :: rest, nMinOrderPos, copyFrom =>
    match w.mapWallet.lookup hash with
    | none => .error .lookup
    | some wtx =>
      let n := wtx.nOrderPos.bmod (2 ^ 32)
      if n < nMinOrderPos then oldest w rest n (some (hash, wtx)) else oldest w rest nMinOrderPos copyFrom

/-- The second loop: the others take over its metadata. -/
def copyMetaData (copyFrom : uint256 × CWalletTx) (w : CWallet) (hash : uint256) : CWallet :=
  if hash = copyFrom.1 then w
  else w.modify hash fun copyTo =>
    { copyTo with
      mapValue := copyFrom.2.mapValue
      vOrderForm := copyFrom.2.vOrderForm
      nTimeSmart := copyFrom.2.nTimeSmart
      fFromMe := copyFrom.2.fFromMe
      strFromAccount := copyFrom.2.strFromAccount }

def syncMetaData (range : List uint256) : Except WalletAbort CWallet :=
  match w.oldest range (2 ^ 31 - 1) none with
  | .error e => .error e
  | .ok none => .ok w
  | .ok (some copyFrom) => .ok (range.foldl (copyMetaData copyFrom) w)

def addSpend (wtxid : uint256) (w : CWallet) (outpoint : COutPoint) : Except WalletAbort CWallet :=
  let w := { w with
    mapTxSpends := w.mapTxSpends ++ [(outpoint, wtxid)]
    setLockedCoins := w.setLockedCoins.filter (· ≠ outpoint) }
  w.syncMetaData (w.spendersOf outpoint)

def addToSpends (wtxid : uint256) : Except WalletAbort CWallet :=
  match w.mapWallet.lookup wtxid with
  | none => .error .assertion
  | some thisTx =>
    if thisTx.tx.isCoinBase then .ok w
    else (thisTx.tx.vin.map CTxIn.prevout).foldlM (addSpend wtxid) w

def visitConflicted (conflictconfirms : Int) (w : CWallet) (now : uint256) : Except WalletAbort (CWallet × List uint256) :=
  match w.mapWallet.lookup now with
  | none => .error .lookup
  | some wtx =>
    if conflictconfirms < wtx.getDepthInMainChain ctx then
      .ok (w.modify now fun wtx => { wtx with nIndex := -1, hashBlock := hashBlock }, w.childrenOf now)
    else .ok (w, [])

def markConflicted (hashTx : uint256) (w : CWallet) : Except WalletAbort CWallet :=
  match ctx.mapBlockIndex.lookup hashBlock with
  | none => .error .assertion
  | some pindex =>
    let conflictconfirms : Int :=
      if ctx.chainActive.contains pindex then -((ctx.chainActive.vChain.length : Int) - 1 - pindex.nHeight + 1) else 0
    if !decide (conflictconfirms < 0) then .error .assertion
    else Worklist.loop (· ≤ ·) (visitConflicted ctx hashBlock conflictconfirms) .rounds (w.mapTxSpends.length + 1) [hashTx] [] w

def visitAbandoned (w : CWallet) (now : uint256) : Except WalletAbort (CWallet × List uint256) :=
  match w.mapWallet.lookup now with
  | none => .error .lookup
  | some wtx =>
    let currentconfirm := wtx.getDepthInMainChain ctx
    if currentconfirm > 0 then .error .assertion
    else if currentconfirm = 0 ∧ !wtx.isAbandoned then
      if ctx.inMempool wtx.getHash then .error .assertion
      else .ok (w.modify now fun wtx => { wtx with nIndex := -1, hashBlock := CWalletTx.ABANDON_HASH }, w.childrenOf now)
    else .ok (w, [])

/-- A transaction that is confirmed or in the mempool is left alone. -/
def abandonTransaction (hashTx : uint256) (w : CWallet) : Except WalletAbort CWallet :=
  match w.mapWallet.lookup hashTx with
  | none => .error .lookup
  | some origtx =>
    if origtx.getDepthInMainChain ctx > 0 ∨ ctx.inMempool origtx.getHash then .ok w
    else Worklist.loop (· ≤ ·) (visitAbandoned ctx) .rounds (w.mapTxSpends.length + 1) [hashTx] [] w

/-- An input that spends a transaction in conflict with a block puts the new one in conflict, too. -/
def conflictByInput (hash : uint256) (w : CWallet) (prevout : COutPoint) : Except WalletAbort CWallet :=
  match w.mapWallet.lookup prevout.hash with
  | none => .ok w
  | some prevtx => if prevtx.nIndex = -1 ∧ !prevtx.hashUnset then markConflicted ctx prevtx.hashBlock hash w else .ok w

def merge (wtxIn wtx : CWalletTx) : CWalletTx :=
  let fMoved := !wtxIn.hashUnset && wtxIn.hashBlock != wtx.hashBlock
  let wtx := if fMoved then { wtx with hashBlock := wtxIn.hashBlock }.updateTimeSmart ctx else wtx
  let fRestored := wtxIn.hashBlock == 0 && wtx.isAbandoned
  let wtx := if fRestored then { wtx with hashBlock := wtxIn.hashBlock } else wtx
  let wtx := if fRestored && !fMoved then wtx.updateTimeSmart ctx else wtx
  let wtx := if wtxIn.nIndex ≠ -1 ∧ wtxIn.nIndex ≠ wtx.nIndex then { wtx with nIndex := wtxIn.nIndex } else wtx
  if wtxIn.fFromMe ∧ wtxIn.fFromMe ≠ wtx.fFromMe then { wtx with fFromMe := wtxIn.fFromMe } else wtx

def addToWallet (wtxIn : CWalletTx) (fFromLoadWallet : Bool) (w : CWallet) : Except WalletAbort CWallet :=
  let hash := wtxIn.getHash
  if fFromLoadWallet then { w with mapWallet := w.mapWallet.insert hash wtxIn }.addToSpends hash
  else match w.mapWallet.lookup hash with
    | some wtx => .ok { w with mapWallet := w.mapWallet.insert hash (merge ctx wtxIn wtx) }
    | none => do
      let wtx := { wtxIn with nTimeReceived := ctx.getAdjustedTime, nOrderPos := w.nOrderPosNext }
      let wtx := wtx.updateTimeSmart ctx
      let w := { w with mapWallet := w.mapWallet.insert hash wtx, nOrderPosNext := w.nOrderPosNext + 1 }
      let w ← w.addToSpends hash
      (wtx.tx.vin.map CTxIn.prevout).foldlM (conflictByInput ctx hash) w

/-- The spenders of an outpoint other than the transaction that a block holds are in conflict with the block. -/
def conflictSpenders (hash : uint256) (w : CWallet) (prevout : COutPoint) : Except WalletAbort CWallet :=
  (w.spendersOf prevout).foldlM (fun w spender => if spender ≠ hash then markConflicted ctx hashBlock spender w else .ok w) w

def conflictBlock (tx : CTransaction) (pblock : Option (uint256 × List CTransaction)) (w : CWallet) :
    Except WalletAbort CWallet :=
  match pblock with
  | none => .ok w
  | some block =>
    if !tx.hasZerocoinSpendInputs && !tx.isCoinBase then
      (tx.vin.map CTxIn.prevout).foldlM (conflictSpenders ctx block.1 tx.hash) w
    else .ok w

def addToWalletIfInvolvingMe (tx : CTransaction) (pblock : Option (uint256 × List CTransaction)) (fUpdate : Bool) (w : CWallet) :
    Except WalletAbort CWallet := do
  let w ← w.conflictBlock ctx tx pblock
  let fExisted := (w.mapWallet.lookup tx.hash).isSome
  if fExisted && !fUpdate then .ok w
  else if fExisted || ctx.isMine tx || ctx.isFromMe tx then
    let wtx : CWalletTx := { tx := tx }
    let wtx := match pblock with
      | none => wtx
      | some block => wtx.setMerkleBranch block
    w.addToWallet ctx wtx false
  else .ok w

/-- `mapTxSpends` is not touched. -/
def eraseFromWallet (w : CWallet) : CWallet :=
  if w.fFileBacked then { w with mapWallet := w.mapWallet.erase hash } else w

/-- A spender that stands: it is confirmed, or it waits and is not abandoned, and as a coinstake is in the mempool. -/
def stands (wtx : CWalletTx) : Bool :=
  let depth := wtx.getDepthAndMempool ctx
  let fConflictedCoinstake := depth.2 && wtx.tx.isCoinStake
  decide (depth.1 > 0) || (decide (depth.1 = 0) && !wtx.isAbandoned && !fConflictedCoinstake)

def isSpent (w : CWallet) (outpoint : COutPoint) : Bool :=
  (w.spendersOf outpoint).any fun wtxid => (w.mapWallet.lookup wtxid).any (stands ctx)

inductive Op where
  | addToWallet (wtxIn : CWalletTx) (fFromLoadWallet : Bool)
  | addToWalletIfInvolvingMe (tx : CTransaction) (pblock : Option (uint256 × List CTransaction)) (fUpdate : Bool)
  | abandonTransaction (hashTx : uint256)
  | eraseFromWallet (hash : uint256)

def step (w : Except WalletAbort CWallet) (d : WalletContext × Op) : Except WalletAbort CWallet :=
  match w with
  | .error e => .error e
  | .ok w =>
    match d.2 with
    | .addToWallet wtxIn fFromLoadWallet => w.addToWallet d.1 wtxIn fFromLoadWallet
    | .addToWalletIfInvolvingMe tx pblock fUpdate => w.addToWalletIfInvolvingMe d.1 tx pblock fUpdate
    -- The command refuses a hash that the wallet does not have.
    | .abandonTransaction hashTx =>
      if (w.mapWallet.lookup hashTx).isSome then w.abandonTransaction d.1 hashTx else .ok w
    | .eraseFromWallet hash => .ok (w.eraseFromWallet hash)

/-- From an empty wallet, with a file or without; a call that ends the node ends the run. -/
def run (fFileBacked : Bool) (ops : List (WalletContext × Op)) : Except WalletAbort CWallet :=
  ops.foldl step (.ok { fFileBacked := fFileBacked })

end CWallet

end SchillingCoin
