import SchillingCoin.Chain.BlockIndex
import SchillingCoin.Coins.View
import SchillingCoin.Mempool.TxMemPool
import SchillingCoin.Primitives.Block
import SchillingCoin.Script.Interpreter

/-!
The check of a proof of stake, after `kernel.cpp`, `stakeinput.cpp`, `legacy/stakemodifier.cpp` and
`GetTransaction` in `main.cpp`.
-/

namespace SchillingCoin

open Checked (refuse)

def STANDARD_SCRIPT_VERIFY_FLAGS : UInt32 :=
  SCRIPT_VERIFY_P2SH ||| SCRIPT_VERIFY_DERSIG ||| SCRIPT_VERIFY_STRICTENC ||| SCRIPT_VERIFY_MINIMALDATA |||
    SCRIPT_VERIFY_NULLDUMMY ||| SCRIPT_VERIFY_DISCOURAGE_UPGRADABLE_NOPS

def OLD_MODIFIER_INTERVAL : Nat := 2087

structure StakeNode where
  network : Network
  mapBlockIndex : StdMap uint256 CBlockIndex := ∅
  mempool : CTxMemPool := {}
  fTxIndex : Bool := true
  /-- What the entry of the transaction index and the block file under it give for a hash: the
  transaction and the hash of the block header before it. -/
  readTxIndex : uint256 → Option (CTransaction × uint256) := fun _ => none
  /-- `ReadBlockFromDisk` of an index entry. -/
  readBlockFromDisk : CBlockIndex → Option CBlock := fun _ => none
  pcoinsTip : CoinsView := {}

inductive StakeError where
  | initialization
  | contextual
  | txPrev
  | signature (e : ScriptError)
  | kernelHash
  /-- An access out of bounds. -/
  | abort
  deriving DecidableEq, Repr

variable (node : StakeNode) (chainActive : CChain) (network : Network)

/-- A transaction of the pool has no block, so the hash of its block stays zero. -/
def StakeNode.getTransaction (hash : uint256) : Option (CTransaction × uint256) :=
  match node.mempool.mapTx.lookup hash with
  | some entry => some (entry.tx, 0)
  | none =>
    if node.fTxIndex then
      (node.readTxIndex hash).filter fun found => found.1.hash == hash
    else do
      let coins ← node.pcoinsTip.accessCoins hash
      let pindexSlow ← if coins.nHeight > 0 then chainActive.vChain[coins.nHeight.toNat]? else none
      let block ← node.readBlockFromDisk pindexSlow
      let tx ← block.vtx.find? fun tx => tx.hash == hash
      return (tx, pindexSlow.hash)

def CBlockIndex.getStakeModifierV1 (pindex : CBlockIndex) : BitVec 64 :=
  if pindex.vStakeModifier.isEmpty || network.consensus.isStakeModifierV2 pindex.nHeight then 0
  else BitVec.ofNat 64 (CScript.littleEndian pindex.vStakeModifier)

def CBlockIndex.getStakeModifierV2 (pindex : CBlockIndex) : uint256 :=
  if pindex.vStakeModifier.isEmpty || !network.consensus.isStakeModifierV2 pindex.nHeight then 0
  else BitVec.ofNat 256 (CScript.littleEndian pindex.vStakeModifier)

/-- The loop of `GetOldModifier` over the blocks after the origin: the first block at which a modifier
was generated late enough. `none` is the end of the chain. -/
def oldModifierBlock (stop : Nat) : (nStakeModifierTime : Nat) → List CBlockIndex → Option CBlockIndex
  | _, [] => none
  | nStakeModifierTime, pindex :: rest =>
    let nStakeModifierTime := if pindex.generatedStakeModifier then pindex.nTime else nStakeModifierTime
    if nStakeModifierTime < stop then oldModifierBlock stop nStakeModifierTime rest else some pindex

def getOldModifier (chainActive : CChain) (pindexFrom : CBlockIndex) : Option (BitVec 64) :=
  (oldModifierBlock (pindexFrom.nTime + OLD_MODIFIER_INTERVAL) pindexFrom.nTime
    (chainActive.above pindexFrom.nHeight)).map (CBlockIndex.getStakeModifierV1 network)

structure CSchStake where
  txFrom : CTransaction
  nPosition : Nat
  pindexFrom : CBlockIndex

namespace CSchStake

/-- The origin of the stake has to be in the active chain. -/
def initFromTxIn (node : StakeNode) (chainActive : CChain) (txin : CTxIn) : Option CSchStake := do
  let (txPrev, hashBlock) ← node.getTransaction chainActive txin.prevout.hash
  let pindex ← node.mapBlockIndex.lookup hashBlock
  if chainActive.contains pindex then
    some { txFrom := txPrev, nPosition := txin.prevout.n, pindexFrom := pindex }
  else none

def contextCheck (network : Network) (stake : CSchStake) (nHeight nTime : Nat) : Bool :=
  !(decide (nHeight + 1 ≥ network.consensus.height_RHF) &&
    !network.consensus.hasStakeMinAgeOrDepth nHeight nTime stake.pindexFrom.nHeight stake.pindexFrom.nTime)

end CSchStake

def lowBytes : Nat → Nat → List UInt8
  | 0, _ => []
  | n + 1, value => UInt8.ofNat value :: lowBytes n (value / 256)

def setCompact (nCompact : BitVec 32) : uint256 :=
  let nSize := nCompact.toNat / 2 ^ 24
  let nWord := nCompact.toNat % 2 ^ 23
  if nSize ≤ 3 then BitVec.ofNat 256 (nWord / 256 ^ (3 - nSize)) else BitVec.ofNat 256 (nWord * 256 ^ (nSize - 3))

structure CStakeKernel where
  stakeModifier : List UInt8
  nTimeBlockFrom : Nat
  stakeUniqueness : List UInt8
  nTime : Nat
  nBits : BitVec 32
  stakeValue : Int

namespace CStakeKernel

/-- A modifier of version one that is not found is logged and stays zero. -/
def stakeModifierOf (network : Network) (chainActive : CChain) (pindexPrev pindexFrom : CBlockIndex) : List UInt8 :=
  if !network.consensus.isStakeModifierV2 (pindexPrev.nHeight + 1) then
    lowBytes 8 ((getOldModifier network chainActive pindexFrom).getD 0).toNat
  else lowBytes 32 (pindexPrev.getStakeModifierV2 network).toNat

/-- The constructor; `none` is an output that is not there. -/
def make (network : Network) (chainActive : CChain) (pindexPrev : CBlockIndex) (stakeInput : CSchStake)
    (nBits : BitVec 32) (nTimeTx : Nat) : Option CStakeKernel :=
  (stakeInput.txFrom.vout[stakeInput.nPosition]?).map fun out =>
    { stakeModifier := stakeModifierOf network chainActive pindexPrev stakeInput.pindexFrom
      nTimeBlockFrom := stakeInput.pindexFrom.nTime
      stakeUniqueness := lowBytes 4 stakeInput.nPosition ++ lowBytes 32 stakeInput.txFrom.hash.toNat
      nTime := nTimeTx
      nBits
      stakeValue := out.nValue }

def getHash (crypto : Crypto) (k : CStakeKernel) : uint256 :=
  BitVec.ofNat 256 (CScript.littleEndian
    (crypto.hash256 (k.stakeModifier ++ lowBytes 4 k.nTimeBlockFrom ++ k.stakeUniqueness ++ lowBytes 4 k.nTime)))

/-- The target is weighted with the staked value; the product is taken in 256 bits. -/
def checkKernelHash (crypto : Crypto) (k : CStakeKernel) : Bool :=
  decide (k.getHash crypto < setCompact k.nBits * (BitVec.ofNat 256 (k.stakeValue % 2 ^ 64).toNat / 100))

end CStakeKernel

def loadStakeInput (block : CBlock) (pindexPrev : CBlockIndex) :
    Except StakeError (CTransaction × CTxIn × CSchStake) := do
  refuse (decide (block.hashPrevBlock ≠ pindexPrev.hash)) .initialization
  match block.vtx with
  | _ :: tx :: _ =>
    refuse (!tx.isCoinStake) .initialization
    match tx.vin with
    | [] => .error .abort
    | txin :: _ =>
      match CSchStake.initFromTxIn node chainActive txin with
      | none => .error .initialization
      | some stake => .ok (tx, txin, stake)
  | _ => .error .initialization

def checkProofOfStake (crypto : Crypto) (node : StakeNode) (chainActive : CChain) (block : CBlock)
    (pindexPrev : CBlockIndex) : Except StakeError Unit := do
  let (tx, txin, stakeInput) ← loadStakeInput node chainActive block pindexPrev
  refuse (!stakeInput.contextCheck node.network (pindexPrev.nHeight + 1) block.nTime) .contextual
  refuse (stakeInput.txFrom.vin.isEmpty && stakeInput.txFrom.vout.isEmpty) .txPrev
  match stakeInput.txFrom.vout[txin.prevout.n]? with
  | none => .error .abort
  | some out =>
    match verifyScript crypto txin.scriptSig out.scriptPubKey STANDARD_SCRIPT_VERIFY_FLAGS
        (transactionSignatureChecker crypto tx 0) with
    | .error e => .error (.signature e)
    | .ok _ =>
      match CStakeKernel.make node.network chainActive pindexPrev stakeInput block.nBits block.nTime with
      | none => .error .abort
      | some stakeKernel => refuse (!stakeKernel.checkKernelHash crypto) .kernelHash

end SchillingCoin
