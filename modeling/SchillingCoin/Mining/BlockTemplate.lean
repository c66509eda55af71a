import SchillingCoin.Masternode.BlockPayee
import SchillingCoin.Masternode.BudgetPayee
import SchillingCoin.Primitives.Wire
import SchillingCoin.Script.Solver
import SchillingCoin.Validation.CheckBlock

/-!
Block templates, after `CreateNewBlock` in `miner.cpp`, `CreateCoinStake` in `wallet.cpp` and `CreateTxOuts` in `stakeinput.cpp`. The
order in which the priority queue gives the transactions of the memory pool, and what the coins view makes of them, are read as data.
-/

namespace SchillingCoin

def DEFAULT_BLOCK_MAX_SIZE : Nat := 750000

def CTransaction.getLegacySigOpCount (tx : CTransaction) : Nat :=
  (tx.vin.map fun txin => CScript.getSigOpCount txin.scriptSig false).sum +
    (tx.vout.map fun txout => CScript.getSigOpCount txout.scriptPubKey false).sum

def CTxOut.empty : CTxOut := { nValue := 0, scriptPubKey := [] }

structure PayeeState where
  /-- `SPORK_13_ENABLE_SUPERBLOCKS`. -/
  superblocks : Bool := false
  budget : CBudgetManager := {}
  masternodePayments : CMasternodePayments := {}
  /-- The script of `GetCurrentMasterNode(1)`. -/
  currentMasterNode : Option CScript := none

namespace PayeeState

def fillBlockPayee (s : PayeeState) (network : Network) (tipHeight : Nat) (txNew : CTransaction) (fProofOfStake : Bool) :
    Option CTransaction :=
  if s.superblocks && s.budget.isBudgetPaymentBlock (tipHeight + 1) then s.budget.fillBlockPayee network tipHeight txNew fProofOfStake
  else s.masternodePayments.fillBlockPayee network tipHeight s.currentMasterNode txNew fProofOfStake

end PayeeState

/-- What the wallet and its keys give. Signatures are of one input and of a block. -/
structure StakeWallet where
  solver : CScript → Option (txnouttype × List valtype)
  /-- `GetKey` and the public key. -/
  getPubKey : valtype → Option CPubKey
  nStakeSplitThreshold : Int
  signSignature : CTransaction → Option CScript
  signBlockWith : CScript → Wire.CBlock → Option valtype

namespace StakeWallet

def stakeScript (w : StakeWallet) (scriptPubKeyKernel : CScript) : Option CScript :=
  match w.solver scriptPubKeyKernel with
  | some (.TX_PUBKEYHASH, hash :: _) => (w.getPubKey hash).map fun key => CScript.pushData key ++ [OP_CHECKSIG]
  | some (.TX_COLDSTAKE, hash :: _) => (w.getPubKey hash).map fun _ => scriptPubKeyKernel
  | some (.TX_PUBKEY, _) => some scriptPubKeyKernel
  | _ => none

def splitCount (w : StakeWallet) (nTotal : Int) : Nat :=
  if w.nStakeSplitThreshold > 0 then
    let nSplit := (nTotal.tdiv w.nStakeSplitThreshold).bmod (2 ^ 32)
    if nSplit > 1 then min nSplit.toNat (MAX_STANDARD_TX_SIZE / 2 ^ 11) else 1
  else 1

def createTxOuts (w : StakeWallet) (scriptPubKeyKernel : CScript) (nTotal : Int) : Option (List CTxOut) :=
  (w.stakeScript scriptPubKeyKernel).map fun scriptPubKey => List.replicate (w.splitCount nTotal) { nValue := 0, scriptPubKey }

end StakeWallet

/-- The credit in equal shares, with the rest on the last output. -/
def shareCredit (nCredit : Int) (vout : List CTxOut) : List CTxOut :=
  let nShare := nCredit.tdiv vout.length
  vout.mapIdx fun i out => { out with nValue := if i + 1 = vout.length then nCredit - nShare * i else nShare }

/-- One turn of the loop of `CreateCoinStake`: the coin, whether the loop ends before it (a new block, a locked wallet, a shutdown),
and whether `Stake` finds a kernel. -/
structure StakeTry where
  prevout : COutPoint
  out : CTxOut
  stopped : Bool := false
  fKernelFound : Bool

structure TemplateState where
  network : Network
  nHeight : Nat
  payees : PayeeState
  wallet : StakeWallet
  stakes : List StakeTry := []

namespace TemplateState

variable (s : TemplateState)

def coinStakeOutputs (stake : StakeTry) (vout : List CTxOut) : Option CTransaction :=
  let nCredit := stake.out.nValue + s.network.getBlockValue s.nHeight
  let txNew : CTransaction := { hash := 0, vin := [], vout := .empty :: shareCredit nCredit vout }
  if txNew.getSerializeSize ≥ DEFAULT_BLOCK_MAX_SIZE / 5 then none
  else s.payees.fillBlockPayee s.network s.nHeight txNew true

/-- The loop. A kernel whose outputs cannot be made is passed over, also where it is the last. -/
def coinStakeLoop : (fKernelFound : Bool) → List StakeTry → Option CTransaction
  | fKernelFound, [] => if fKernelFound then some { hash := 0, vin := [], vout := [.empty] } else none
  | _, stake :: rest =>
    if stake.stopped then none
    else if !stake.fKernelFound then coinStakeLoop false rest
    else match s.wallet.createTxOuts stake.out.scriptPubKey (stake.out.nValue + s.network.getBlockValue s.nHeight) with
      | none => coinStakeLoop true rest
      | some vout => (s.coinStakeOutputs stake vout).map fun txNew => { txNew with vin := [{ prevout := stake.prevout }] }

def signInputs (txNew : CTransaction) : Option CTransaction :=
  match txNew.vin with
  | [] => some txNew
  | txin :: rest => (s.wallet.signSignature txNew).map fun scriptSig => { txNew with vin := { txin with scriptSig } :: rest }

def createCoinStake : Option CTransaction := (s.coinStakeLoop false s.stakes).bind s.signInputs

end TemplateState

structure Candidate where
  tx : CTransaction
  nTxFees : Int
  nP2SHSigOps : Nat
  /-- It is not left out as a free transaction, its inputs are in the view, and they pass `CheckInputs`. -/
  passes : Bool

/-- The argument is an `int64_t` that is read into an `unsigned int`. -/
def blockMaxSize (arg : Int) : Nat := max 1000 (min (MAX_BLOCK_SIZE_CURRENT - 1000) (arg % 2 ^ 32).toNat)

/-- The loop over the priority queue, with the size and the signature operations so far. -/
def collect (nBlockMaxSize : Nat) : (nBlockSize nBlockSigOps : Nat) → List Candidate → List Candidate
  | _, _, [] => []
  | nBlockSize, nBlockSigOps, c :: rest =>
    let nTxSize := c.tx.getSerializeSize
    let nTxSigOps := c.tx.getLegacySigOpCount + c.nP2SHSigOps
    if nBlockSize + nTxSize ≥ nBlockMaxSize then collect nBlockMaxSize nBlockSize nBlockSigOps rest
    else if nBlockSigOps + c.tx.getLegacySigOpCount ≥ MAX_BLOCK_SIGOPS_CURRENT then collect nBlockMaxSize nBlockSize nBlockSigOps rest
    else if !c.passes then collect nBlockMaxSize nBlockSize nBlockSigOps rest
    else if nBlockSigOps + nTxSigOps ≥ MAX_BLOCK_SIGOPS_CURRENT then collect nBlockMaxSize nBlockSize nBlockSigOps rest
    else c :: collect nBlockMaxSize (nBlockSize + nTxSize) (nBlockSigOps + nTxSigOps) rest

/-- What is asked of `CreateNewBlock`, with the memory pool and the fields of the header that the chain gives. -/
structure TemplateRequest where
  scriptPubKeyIn : CScript
  fProofOfStake : Bool
  blockMaxSizeArg : Int := DEFAULT_BLOCK_MAX_SIZE
  /-- `-blockversion`, which is read on the regression test network. -/
  blockVersionArg : Option Int := none
  queue : List Candidate := []
  header : Wire.CBlockHeader := {}

namespace TemplateRequest

variable (r : TemplateRequest)

def collected : List Candidate :=
  collect (blockMaxSize r.blockMaxSizeArg) 1000 100 (r.queue.filter fun c => !c.tx.isCoinBase && !c.tx.isCoinStake)

def newCoinbase : CTransaction :=
  { hash := 0, vin := [{ prevout := .null }], vout := [{ nValue := -1, scriptPubKey := r.scriptPubKeyIn }] }

end TemplateRequest

namespace TemplateState

variable (s : TemplateState) (r : TemplateRequest)

def blockVersion : Int :=
  let nVersion :=
    if s.nHeight + 1 < s.network.consensus.height_start_ZC then 3
    else if s.nHeight + 1 < s.network.consensus.height_RHF then 4
    else 5
  if s.network = .regtest then (r.blockVersionArg.getD nVersion).bmod (2 ^ 32) else nVersion

def templateHeader : Wire.CBlockHeader := { r.header with nVersion := s.blockVersion r }

/-- The coinbase of a block with proof of work. Where a payee is added it replaces the one that got its script. -/
def workCoinbase (nFees : Int) : Option CTransaction :=
  (s.payees.fillBlockPayee s.network s.nHeight r.newCoinbase false).map fun txNew =>
    if txNew.vout.length > 1 then txNew
    else { txNew with
      vin := [{ prevout := .null, scriptSig := CScript.pushInt (s.nHeight + 1) ++ [0x00] }]
      vout := txNew.vout.modify 0 fun out => { out with nValue := nFees + s.network.getBlockValue s.nHeight } }

/-- The coinbase of a block with proof of stake after `IncrementExtraNonce`. -/
def stakeCoinbase : CTransaction :=
  { hash := 0
    vin := [{ prevout := .null, scriptSig := CScript.pushInt (s.nHeight + 1) ++ CScript.pushData (CScriptNum.serialize 1) }]
    vout := [.empty] }

/-- `SignBlock`, by the key of the first output of a coinbase that has one, or of the second of the coinstake. -/
def signBlock (block : Wire.CBlock) : Option valtype :=
  if block.isProofOfStake then
    block.vtx[1]?.bind fun tx => tx.vout[1]?.bind fun out => s.wallet.signBlockWith out.scriptPubKey block
  else block.vtx[0]?.bind fun tx => tx.vout.findSome? fun out => s.wallet.signBlockWith out.scriptPubKey block

/-- The block that is handed to `TestBlockValidity`, where it comes so far. -/
def createNewBlock : Option Wire.CBlock :=
  let taken := r.collected
  if r.fProofOfStake then do
    let coinStake ← s.createCoinStake
    let block : Wire.CBlock := { toCBlockHeader := s.templateHeader r, vtx := s.stakeCoinbase :: coinStake :: taken.map Candidate.tx }
    let vchBlockSig ← s.signBlock block
    return { block with vchBlockSig }
  else do
    let coinbase ← s.workCoinbase r (taken.map Candidate.nTxFees).sum
    return { toCBlockHeader := s.templateHeader r, vtx := coinbase :: taken.map Candidate.tx }

end TemplateState

end SchillingCoin
