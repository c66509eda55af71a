import SchillingCoin.Script.Iterators
import SchillingCoin.Masternode.Payments

/-!
Transaction locks, after `swifttx.h` and `swifttx.cpp`: the messages `ix` and `txlvote`, the votes that
complete a lock, the inputs that are locked, and the cleaning of expired locks. What the handlers tell
the wallet and the notification interface is left out, as is the reprocessing of blocks.
-/

namespace SchillingCoin

def SWIFTTX_SIGNATURES_REQUIRED : Int := 6
def SWIFTTX_SIGNATURES_TOTAL : Int := 10

structure CConsensusVote where
  vinMasternode : CTxIn
  txHash : uint256
  nBlockHeight : Int
  nMessVersion : MessageVersion := .hash
  vchSig : List UInt8 := []
  deriving DecidableEq, Repr

structure CTransactionLock where
  nBlockHeight : Int
  txHash : uint256
  vecConsensusVotes : List CConsensusVote := []
  nExpiration : Int
  nTimeout : Int
  deriving DecidableEq, Repr

structure SwiftContext where
  fLiteMode : Bool := false
  /-- `SPORK_2_SWIFTTX`. -/
  swiftTXActive : Bool := true
  isBlockchainSynced : Bool := true
  getTime : Int
  /-- The height of the tip. A node that is synced has one. -/
  tipHeight : Option Int
  /-- The value of `SPORK_5_MAX_VALUE`. -/
  maxValue : Int
  getInputAge : CTxIn → Int
  getTransaction : uint256 → Option CTransaction
  acceptToMemoryPool : CTransaction → Bool
  getMasternodeRank : COutPoint → Int → Int
  checkSignature : CConsensusVote → Bool
  /-- The input of the node's own masternode, when it runs one. -/
  activeMasternode : Option CTxIn := none
  sign : CConsensusVote → Option CConsensusVote := fun _ => none

structure SwiftTX where
  mapTxLockReq : StdMap uint256 CTransaction := ∅
  mapTxLockReqRejected : StdMap uint256 CTransaction := ∅
  mapTxLockVote : StdMap uint256 CConsensusVote := ∅
  mapTxLocks : StdMap uint256 CTransactionLock := ∅
  mapLockedInputs : StdMap COutPoint uint256 := ∅
  mapUnknownVotes : StdMap uint256 Int := ∅

namespace CScript

def OP_DUP : UInt8 := 0x76
def OP_HASH160 : UInt8 := 0xa9
def OP_EQUALVERIFY : UInt8 := 0x88

/-- The loop of `IsNormalPaymentScript`, which ignores what `GetOp` returns. -/
def isNormalPaymentFromAt (s : CScript) : (rounds i pc : Nat) → Except Fault Bool
  | 0, _, _ => .error .unfinished
  | rounds + 1, i, pc =>
    if pc < s.length then
      (getOp2 s pc).bind fun r =>
        if i = 0 ∧ r.opcode ≠ OP_DUP then .ok false
        else if i = 1 ∧ r.opcode ≠ OP_HASH160 then .ok false
        else if i = 3 ∧ r.opcode ≠ OP_EQUALVERIFY then .ok false
        else if i = 4 ∧ r.opcode ≠ OP_CHECKSIG then .ok false
        else if i = 5 then .ok false
        else isNormalPaymentFromAt s rounds (i + 1) r.pc
    else .ok true

def isNormalPaymentScriptAt (s : CScript) : Except Fault Bool :=
  if s.length ≠ 25 then .ok false else isNormalPaymentFromAt s (s.length + 1) 0 0

/-- `isNormalPaymentScriptAt` never fails. -/
def isNormalPaymentScript (s : CScript) : Bool := (isNormalPaymentScriptAt s).toOption.getD false

end CScript

namespace CConsensusVote

def getHash (v : CConsensusVote) : uint256 :=
  v.vinMasternode.prevout.hash + BitVec.ofNat 256 v.vinMasternode.prevout.n + v.txHash

end CConsensusVote

namespace CTransactionLock

def addSignature (l : CTransactionLock) (cv : CConsensusVote) : CTransactionLock :=
  { l with vecConsensusVotes := l.vecConsensusVotes ++ [cv] }

def countSignatures (l : CTransactionLock) : Int :=
  if l.nBlockHeight = 0 then -1
  else (l.vecConsensusVotes.countP fun v => v.nBlockHeight == l.nBlockHeight : Nat)

/-- A lock without votes. It expires after an hour and times out after five minutes. -/
def new (nBlockHeight : Int) (txHash : uint256) (time : Int) : CTransactionLock :=
  { nBlockHeight, txHash, nExpiration := time + 60 * 60, nTimeout := time + 60 * 5 }

end CTransactionLock

def CTransaction.null : CTransaction := { hash := 0, vin := [], vout := [] }

namespace SwiftTX

variable (ctx : SwiftContext) (s : SwiftTX) (tx : CTransaction) (vote : CConsensusVote)

/-- The inputs are known to be worth at least 0.01 coins more than the outputs, or some input is unknown. -/
def isIXTXValid (txCollateral : CTransaction) : Bool :=
  let nValueOut := txCollateral.vout.foldl (fun sum o => int64 (sum + o.nValue)) 0
  let nValueIn := txCollateral.vin.foldl (fun sum i =>
    match (ctx.getTransaction i.prevout.hash).bind fun tx2 => tx2.vout[i.prevout.n]? with
    | some o => int64 (sum + o.nValue)
    | none => sum) 0
  let missingTx := txCollateral.vin.any fun i => (ctx.getTransaction i.prevout.hash).isNone
  if txCollateral.vout.length < 1 then false
  else if txCollateral.nLockTime ≠ 0 then false
  else if nValueOut > ctx.maxValue * COIN then false
  else if missingTx then true
  else !decide (int64 (nValueIn - nValueOut) < 1000000)

/-- The height of the lock is taken from the age of the first input. An input too new leaves no lock. -/
def createNewLock : Int × SwiftTX :=
  if tx.vin.any fun i => decide (ctx.getInputAge i < 5) then (0, s)
  else
    let nTxAge := (tx.vin.head?.map ctx.getInputAge).getD 0
    let nBlockHeight := ctx.tipHeight.getD 0 - nTxAge + 4
    let lock := match s.mapTxLocks.lookup tx.getHash with
      | none => CTransactionLock.new nBlockHeight tx.getHash ctx.getTime
      | some old => { old with nBlockHeight }
    (nBlockHeight, { s with mapTxLocks := s.mapTxLocks.insert tx.getHash lock })

def doConsensusVote (nBlockHeight : Int) : SwiftTX :=
  match ctx.activeMasternode with
  | none => s
  | some vin =>
    let n := ctx.getMasternodeRank vin.prevout nBlockHeight
    if n = -1 ∨ n > SWIFTTX_SIGNATURES_TOTAL then s
    else match ctx.sign { vinMasternode := vin, txHash := tx.getHash, nBlockHeight } with
      | none => s
      | some vote =>
        if !ctx.checkSignature vote then s
        else { s with mapTxLockVote := s.mapTxLockVote.insert vote.getHash vote }

/-- `mapTxLocks[hash].nExpiration = time`, where there is such a lock. -/
def expire (hash : uint256) (time : Int) : SwiftTX :=
  match s.mapTxLocks.lookup hash with
  | none => s
  | some lock => { s with mapTxLocks := s.mapTxLocks.insert hash { lock with nExpiration := time } }

def checkForConflictingLocks : Bool × SwiftTX :=
  match tx.vin.findSome? fun i => (s.mapLockedInputs.lookup i.prevout).filter fun held => held != tx.getHash with
  | none => (false, s)
  | some held => (true, (s.expire tx.getHash ctx.getTime).expire held ctx.getTime)

def lockInputs (hash : uint256) : SwiftTX :=
  { s with mapLockedInputs := tx.vin.foldl (fun locked i =>
      if (locked.lookup i.prevout).isSome then locked else locked.insert i.prevout hash) s.mapLockedInputs }

def rejectRequest : SwiftTX :=
  let s := { s with mapTxLockReqRejected := s.mapTxLockReqRejected.insert tx.getHash tx }
  let s := s.lockInputs tx tx.getHash
  match s.mapTxLocks.lookup tx.getHash with
  | none => s
  | some lock =>
    if lock.countSignatures ≥ SWIFTTX_SIGNATURES_REQUIRED then
      let checked := s.checkForConflictingLocks ctx tx
      if checked.1 then checked.2
      else { checked.2 with mapTxLockReq := checked.2.mapTxLockReq.insert tx.getHash tx }
    else s

/-- The request is not known yet and passes the checks that come before the pool. -/
def isNewRequest : Bool :=
  !((s.mapTxLockReq.lookup tx.getHash).isSome || (s.mapTxLockReqRejected.lookup tx.getHash).isSome) &&
    isIXTXValid ctx tx &&
    !tx.vout.any fun o => !CScript.isNormalPaymentScript o.scriptPubKey && !CScript.isUnspendable o.scriptPubKey

/-- The branch `ix` of `ProcessMessageSwiftTX`, and whether the request is relayed. -/
def processRequest : Bool × SwiftTX :=
  if !s.isNewRequest ctx tx then (false, s)
  else
    let created := s.createNewLock ctx tx
    if ctx.acceptToMemoryPool tx then
      let s := created.2.doConsensusVote ctx tx created.1
      (true, { s with mapTxLockReq := s.mapTxLockReq.insert tx.getHash tx })
    else (false, created.2.rejectRequest ctx tx)

def voteRefused : Bool :=
  let n := ctx.getMasternodeRank vote.vinMasternode.prevout vote.nBlockHeight
  n == -1 || decide (n > SWIFTTX_SIGNATURES_TOTAL) || !ctx.checkSignature vote

/-- The lock of the transaction with the vote added, made new where there is none. -/
def votedLock : CTransactionLock :=
  ((s.mapTxLocks.lookup vote.txHash).getD (.new 0 vote.txHash ctx.getTime)).addSignature vote

/-- The request of a complete lock. Reading it through `operator[]` inserts an empty transaction where there
is none. -/
def completeLock (txHash : uint256) : SwiftTX :=
  let tx := (s.mapTxLockReq.lookup txHash).getD .null
  let s := { s with mapTxLockReq := s.mapTxLockReq.insert txHash tx }
  let checked := s.checkForConflictingLocks ctx tx
  if checked.1 then checked.2 else checked.2.lockInputs tx txHash

def processConsensusVote : Bool × SwiftTX :=
  if voteRefused ctx vote then (false, s)
  else
    let lock := s.votedLock ctx vote
    let s := { s with mapTxLocks := s.mapTxLocks.insert vote.txHash lock }
    (true, if lock.countSignatures ≥ SWIFTTX_SIGNATURES_REQUIRED then s.completeLock ctx vote.txHash else s)

def getAverageVoteTime : Int :=
  (StdMap.sum (fun _ time => time) s.mapUnknownVotes).tdiv s.mapUnknownVotes.entries.length

/-- Votes on a transaction that is not known are relayed at the rate of the network. -/
def limitUnknownVotes : Bool × SwiftTX :=
  let mn := vote.vinMasternode.prevout.hash
  let later := ctx.getTime + 60 * 10
  if (s.mapTxLockReq.lookup vote.txHash).isSome || (s.mapTxLockReqRejected.lookup vote.txHash).isSome then (true, s)
  else
    let until_ := (s.mapUnknownVotes.lookup mn).getD later
    let s := { s with mapUnknownVotes := s.mapUnknownVotes.insert mn until_ }
    if until_ > ctx.getTime ∧ until_ - s.getAverageVoteTime > 60 * 10 then (false, s)
    else (true, { s with mapUnknownVotes := s.mapUnknownVotes.insert mn later })

/-- The branch `txlvote` of `ProcessMessageSwiftTX`, and whether the vote is relayed. The vote is remembered
before it is checked. -/
def processVote : Bool × SwiftTX :=
  if (s.mapTxLockVote.lookup vote.getHash).isSome then (false, s)
  else
    let s := { s with mapTxLockVote := s.mapTxLockVote.insert vote.getHash vote }
    let processed := s.processConsensusVote ctx vote
    if processed.1 then processed.2.limitUnknownVotes ctx vote else (false, processed.2)

/-- One pass of the loop of `CleanTransactionLocksList`, at the lock under a key. The maps of requests and
votes are only cleaned when the request is in `mapTxLockReq`. -/
def cleanLock (key : uint256) (lock : CTransactionLock) : SwiftTX :=
  if ctx.getTime > lock.nExpiration then
    let s := match s.mapTxLockReq.lookup lock.txHash with
      | none => s
      | some tx =>
        { s with
          mapLockedInputs := tx.vin.foldl (fun locked (i : CTxIn) => locked.erase i.prevout) s.mapLockedInputs
          mapTxLockReq := s.mapTxLockReq.erase lock.txHash
          mapTxLockReqRejected := s.mapTxLockReqRejected.erase lock.txHash
          mapTxLockVote := lock.vecConsensusVotes.foldl (fun votes (v : CConsensusVote) => votes.erase v.getHash)
            s.mapTxLockVote }
    { s with mapTxLocks := s.mapTxLocks.erase key }
  else s

def cleanTransactionLocksList : SwiftTX :=
  match ctx.tipHeight with
  | none => s
  | some _ => s.mapTxLocks.entries.foldl (fun s e => s.cleanLock ctx e.1 e.2) s

inductive Op where
  | ix (ctx : SwiftContext) (tx : CTransaction)
  | txlvote (ctx : SwiftContext) (vote : CConsensusVote)
  | clean (ctx : SwiftContext)

/-- `ProcessMessageSwiftTX` does nothing in lite mode, without the spork or before the chain is synced. -/
def ignores : Bool :=
  ctx.fLiteMode || !ctx.swiftTXActive || !ctx.isBlockchainSynced || ctx.tipHeight.isNone

def step : Op → SwiftTX
  | .ix ctx tx => if ignores ctx then s else (s.processRequest ctx tx).2
  | .txlvote ctx vote => if ignores ctx then s else (s.processVote ctx vote).2
  | .clean ctx => s.cleanTransactionLocksList ctx

end SwiftTX

end SchillingCoin
