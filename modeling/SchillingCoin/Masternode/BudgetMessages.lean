import SchillingCoin.Lib.Ballot
import SchillingCoin.Masternode.Budget
import SchillingCoin.Swift.SwiftTX

/-!
The budget messages `mprop`, `mvote`, `fbs` and `fbvote`, after `masternode-budget.cpp`: the checks of proposals and
finalized budgets, the votes on them, and the votes that wait for an unknown proposal or budget. What is logged,
relayed or asked of peers is left out.
-/

namespace SchillingCoin

def BUDGET_VOTE_UPDATE_MIN : Int := 60 * 60
def PROPOSAL_FEE_TX : Int := 50 * COIN
def BUDGET_FEE_TX : Int := 5 * COIN

def VOTE_YES : Int := 1
def VOTE_NO : Int := 2

structure BudgetHashes where
  proposal : String → String → Int → Int → Int → CScript → uint256
  finalized : String → Int → List CTxBudgetPayment → uint256
  vote : CTxIn → uint256 → Int → Int → uint256
  finalizedVote : CTxIn → uint256 → Int → uint256
  outpoint : COutPoint → uint256

structure BudgetContext where
  network : Network
  fLiteMode : Bool := false
  isBlockchainSynced : Bool := true
  isSynced : Bool := true
  getTime : Int
  tipHeight : Option Int
  /-- A transaction and the hash of its block, null outside a block. -/
  getTransaction : uint256 → Option (CTransaction × uint256)
  getIXConfirmations : uint256 → Int := fun _ => 0
  /-- The height and the time of a block of the active chain. -/
  activeBlock : uint256 → Option (Int × Int)
  /-- Whether `mnodeman.Find` knows the masternode. -/
  find : CTxIn → Bool
  checkVote : CBudgetVote → Bool
  checkFinalizedVote : CFinalizedBudgetVote → Bool

/-- What `IsBudgetCollateralValid` returns. The time is only written for a fee transaction in the active chain. -/
structure BudgetCollateral where
  valid : Bool
  nTime : Option Int := none
  nConf : Int := 0
  deriving DecidableEq, Repr

def toByteVector (h : uint256) : valtype := (List.range 32).map fun i => UInt8.ofNat (h.toNat / 256 ^ i)

namespace BudgetContext

def findScript (nExpectedHash : uint256) : CScript := [OP_RETURN] ++ CScript.pushData (toByteVector nExpectedHash)

def isBudgetCollateralValid (ctx : BudgetContext) (nTxCollateralHash nExpectedHash : uint256) (fBudgetFinalization : Bool) :
    BudgetCollateral :=
  match ctx.getTransaction nTxCollateralHash with
  | none => { valid := false }
  | some (txCollateral, nBlockHash) =>
    if txCollateral.vout.length < 1 then { valid := false }
    else if txCollateral.nLockTime ≠ 0 then { valid := false }
    else if txCollateral.vout.any fun o => !CScript.isNormalPaymentScript o.scriptPubKey && !CScript.isUnspendable o.scriptPubKey then
      { valid := false }
    else if !txCollateral.vout.any fun o => o.scriptPubKey == findScript nExpectedHash &&
        decide (o.nValue ≥ if fBudgetFinalization then BUDGET_FEE_TX else PROPOSAL_FEE_TX) then
      { valid := false }
    else
      let block := if nBlockHash = 0 then none else ctx.activeBlock nBlockHash
      let conf : Int := match block, ctx.tipHeight with
        | some (nHeight, _), some nTip => ctx.getIXConfirmations nTxCollateralHash + (nTip - nHeight + 1)
        | _, _ => ctx.getIXConfirmations nTxCollateralHash
      { valid := decide (conf ≥ ctx.network.consensus.nBudgetFeeConfirmations)
        nTime := block.map Prod.snd
        nConf := conf }

/-- The height is not used. Outside the test network nothing can be paid. -/
def getTotalBudget (ctx : BudgetContext) (_nHeight : Int) : Int :=
  if ctx.tipHeight.isNone then 0
  else if ctx.network = .testnet then
    let nSubsidy := 500 * COIN
    nSubsidy.tdiv 100 * 10 * 146
  else 0

end BudgetContext

namespace CBudgetVote

def getHash (hashes : BudgetHashes) (v : CBudgetVote) : uint256 := hashes.vote v.vin v.nProposalHash v.nVote v.nTime

def checkSignature (ctx : BudgetContext) (v : CBudgetVote) : Bool := ctx.find v.vin && ctx.checkVote v

end CBudgetVote

namespace CFinalizedBudgetVote

def getHash (hashes : BudgetHashes) (v : CFinalizedBudgetVote) : uint256 := hashes.finalizedVote v.vin v.nBudgetHash v.nTime

def checkSignature (ctx : BudgetContext) (v : CFinalizedBudgetVote) : Bool := ctx.find v.vin && ctx.checkFinalizedVote v

end CFinalizedBudgetVote

/-- How votes on proposals are read. A vote may lie one hour in the future. -/
def proposalRules (hashes : BudgetHashes) : Ballot.Rules uint256 uint256 uint256 CBudgetProposal CBudgetVote where
  item v := v.nProposalHash
  voter v := hashes.outpoint v.vin.prevout
  time v := v.nTime
  hash v := v.getHash hashes
  votes p := p.mapVotes
  setVotes p votes := { p with mapVotes := votes }
  gap := BUDGET_VOTE_UPDATE_MIN
  ahead := 60 * 60

def finalizedRules (hashes : BudgetHashes) :
    Ballot.Rules uint256 uint256 uint256 CFinalizedBudget CFinalizedBudgetVote where
  item v := v.nBudgetHash
  voter v := hashes.outpoint v.vin.prevout
  time v := v.nTime
  hash v := v.getHash hashes
  votes b := b.mapVotes
  setVotes b votes := { b with mapVotes := votes }
  gap := BUDGET_VOTE_UPDATE_MIN
  ahead := 60 * 60

namespace CBudgetProposal

variable (hashes : BudgetHashes) (p : CBudgetProposal)

def getHash : uint256 :=
  hashes.proposal p.strProposalName p.strURL p.nBlockStart p.nBlockEnd p.nAmount p.address

def getYeas : Int := (p.mapVotes.entries.filter fun e => e.2.nVote == VOTE_YES && e.2.fValid).length

def getNays : Int := (p.mapVotes.entries.filter fun e => e.2.nVote == VOTE_NO && e.2.fValid).length

def getBlockStartCycle (network : Network) (p : CBudgetProposal) : Int :=
  p.nBlockStart - p.nBlockStart.tmod network.consensus.nBudgetCycleBlocks

def getTotalPaymentCount (network : Network) (p : CBudgetProposal) : Int :=
  (p.nBlockEnd - p.getBlockStartCycle network).tdiv network.consensus.nBudgetCycleBlocks

/-- The time of the fee transaction is taken over, when it was written. -/
def stamp (collateral : BudgetCollateral) : CBudgetProposal :=
  { p with nTime := collateral.nTime.getD p.nTime }

def isValid (ctx : BudgetContext) (countEnabled : Nat) (p : CBudgetProposal) : Bool × CBudgetProposal :=
  if p.getNays - p.getYeas > (countEnabled / 10 : Nat) then (false, p)
  else if p.nBlockStart < 0 then (false, p)
  else if p.nBlockEnd < p.nBlockStart then (false, p)
  else if p.nAmount < 10 * COIN then (false, p)
  else if p.address = [] then (false, p)
  else
    let collateral := ctx.isBudgetCollateralValid p.nFeeTXHash (p.getHash hashes) false
    let p := p.stamp collateral
    if !collateral.valid then (false, p)
    else if CScript.isPayToScriptHash p.address then (false, p)
    else if p.nAmount > ctx.getTotalBudget p.nBlockStart then (false, p)
    else match ctx.tipHeight with
      | none => (true, p)
      | some nHeight =>
        let nProposalEnd := p.nBlockStart + ctx.network.consensus.nBudgetCycleBlocks * p.getTotalPaymentCount ctx.network
        (!decide (nProposalEnd < nHeight), p)

def addOrUpdateVote (ctx : BudgetContext) (p : CBudgetProposal) (vote : CBudgetVote) : Except Ballot.Refusal CBudgetProposal :=
  (Ballot.addOrUpdate (proposalRules hashes) ctx.getTime p.mapVotes vote).map fun mapVotes => { p with mapVotes := mapVotes }

def received : CBudgetProposal := { p with mapVotes := ∅ }

end CBudgetProposal

namespace CFinalizedBudget

variable (hashes : BudgetHashes) (b : CFinalizedBudget)

def getHash : uint256 :=
  hashes.finalized b.strBudgetName b.nBlockStart b.vecBudgetPayments

def getTotalPayout : Int :=
  b.vecBudgetPayments.foldl (fun ret payment => int64 (ret + payment.nAmount)) 0

def stamp (collateral : BudgetCollateral) : CFinalizedBudget :=
  { b with nTime := collateral.nTime.getD b.nTime }

def isValid (ctx : BudgetContext) (b : CFinalizedBudget) : Bool × CFinalizedBudget :=
  let nBlocksPerCycle : Int := ctx.network.consensus.nBudgetCycleBlocks
  if b.nBlockStart.tmod nBlocksPerCycle ≠ 0 then (false, b)
  else if b.getBlockEnd - b.nBlockStart > 100 then (false, b)
  else if b.vecBudgetPayments.length > 100 then (false, b)
  else if b.strBudgetName = "" then (false, b)
  else if b.nBlockStart = 0 then (false, b)
  else if b.nFeeTXHash = 0 then (false, b)
  else if b.getTotalPayout > ctx.getTotalBudget b.nBlockStart then (false, b)
  else
    let collateral := ctx.isBudgetCollateralValid b.nFeeTXHash (b.getHash hashes) true
    let b := b.stamp collateral
    if !collateral.valid then (false, b)
    else match ctx.tipHeight with
      | none => (true, b)
      | some nCurrentHeight =>
        let nBlockStart := nCurrentHeight - nCurrentHeight.tmod nBlocksPerCycle + nBlocksPerCycle
        let nMaxAge := nBlockStart - 2 * nBlocksPerCycle
        (!decide (b.getBlockEnd < nMaxAge), b)

def addOrUpdateVote (ctx : BudgetContext) (b : CFinalizedBudget) (vote : CFinalizedBudgetVote) :
    Except Ballot.Refusal CFinalizedBudget :=
  (Ballot.addOrUpdate (finalizedRules hashes) ctx.getTime b.mapVotes vote).map fun mapVotes => { b with mapVotes := mapVotes }

/-- A broadcast as it is read from a peer: the votes and the time are left out. -/
def received : CFinalizedBudget := { b with mapVotes := ∅, nTime := 0 }

end CFinalizedBudget

namespace CBudgetManager

variable (hashes : BudgetHashes) (ctx : BudgetContext) (m : CBudgetManager) (vote : CBudgetVote)

/-- With `pfrom`, a synced node keeps a vote on an unknown proposal. It is put in place of an earlier one. -/
def updateProposal (pfrom : Bool) (m : CBudgetManager) (vote : CBudgetVote) : Bool × CBudgetManager :=
  match m.mapProposals.lookup vote.nProposalHash with
  | none =>
    if pfrom && ctx.isSynced then
      (false, { m with mapOrphanMasternodeBudgetVotes := m.mapOrphanMasternodeBudgetVotes.insert vote.nProposalHash vote })
    else (false, m)
  | some proposal => match proposal.addOrUpdateVote hashes ctx vote with
    | .ok proposal => (true, { m with mapProposals := m.mapProposals.insert vote.nProposalHash proposal })
    | .error _ => (false, m)

def updateFinalizedBudget (pfrom : Bool) (m : CBudgetManager) (vote : CFinalizedBudgetVote) : Bool × CBudgetManager :=
  match m.mapFinalizedBudgets.lookup vote.nBudgetHash with
  | none =>
    if pfrom && ctx.isSynced then
      (false, { m with mapOrphanFinalizedBudgetVotes := m.mapOrphanFinalizedBudgetVotes.insert vote.nBudgetHash vote })
    else (false, m)
  | some finalizedBudget => match finalizedBudget.addOrUpdateVote hashes ctx vote with
    | .ok finalizedBudget => (true, { m with mapFinalizedBudgets := m.mapFinalizedBudgets.insert vote.nBudgetHash finalizedBudget })
    | .error _ => (false, m)

def checkOrphanProposalVote (key : uint256) (vote : CBudgetVote) : CBudgetManager :=
  let updated := m.updateProposal hashes ctx false vote
  if updated.1 then
    { updated.2 with mapOrphanMasternodeBudgetVotes := updated.2.mapOrphanMasternodeBudgetVotes.erase key }
  else updated.2

def checkOrphanFinalizedVote (key : uint256) (vote : CFinalizedBudgetVote) : CBudgetManager :=
  let updated := m.updateFinalizedBudget hashes ctx false vote
  if updated.1 then
    { updated.2 with mapOrphanFinalizedBudgetVotes := updated.2.mapOrphanFinalizedBudgetVotes.erase key }
  else updated.2

def checkOrphanVotes : CBudgetManager :=
  let m := m.mapOrphanMasternodeBudgetVotes.entries.foldl (fun m e => m.checkOrphanProposalVote hashes ctx e.1 e.2) m
  m.mapOrphanFinalizedBudgetVotes.entries.foldl (fun m e => m.checkOrphanFinalizedVote hashes ctx e.1 e.2) m

def addProposal (budgetProposal : CBudgetProposal) : CBudgetManager :=
  let checked := budgetProposal.isValid hashes ctx m.countEnabled
  if !checked.1 then m
  else if (m.mapProposals.lookup (checked.2.getHash hashes)).isSome then m
  else { m with mapProposals := m.mapProposals.insert (checked.2.getHash hashes) checked.2 }

def addFinalizedBudget (finalizedBudget : CFinalizedBudget) : CBudgetManager :=
  let checked := finalizedBudget.isValid hashes ctx
  if !checked.1 then m
  else if (m.mapFinalizedBudgets.lookup (checked.2.getHash hashes)).isSome then m
  else { m with mapFinalizedBudgets := m.mapFinalizedBudgets.insert (checked.2.getHash hashes) checked.2 }

inductive Message where
  | mprop (budgetProposalBroadcast : CBudgetProposal)
  | mvote (vote : CBudgetVote)
  | fbs (finalizedBudgetBroadcast : CFinalizedBudget)
  | fbvote (vote : CFinalizedBudgetVote)

def processProposal (broadcast : CBudgetProposal) : CBudgetManager :=
  let hash := broadcast.getHash hashes
  if (m.mapSeenMasternodeBudgetProposals.lookup hash).isSome then m
  else
    let collateral := ctx.isBudgetCollateralValid broadcast.nFeeTXHash hash false
    let broadcast := broadcast.stamp collateral
    if !collateral.valid then
      if collateral.nConf ≥ 1 then { m with vecImmatureBudgetProposals := m.vecImmatureBudgetProposals ++ [broadcast] } else m
    else
      let m := { m with mapSeenMasternodeBudgetProposals := m.mapSeenMasternodeBudgetProposals.insert hash broadcast }
      let checked := broadcast.isValid hashes ctx m.countEnabled
      if !checked.1 then m
      else (m.addProposal hashes ctx checked.2).checkOrphanVotes hashes ctx

def processVote : CBudgetManager :=
  if (m.mapSeenMasternodeBudgetVotes.lookup (vote.getHash hashes)).isSome then m
  else if !ctx.find vote.vin then m
  else
    let m := { m with mapSeenMasternodeBudgetVotes := m.mapSeenMasternodeBudgetVotes.insert (vote.getHash hashes) vote }
    if !vote.checkSignature ctx then m
    else (m.updateProposal hashes ctx true vote).2

def processFinalizedBudget (broadcast : CFinalizedBudget) : CBudgetManager :=
  let hash := broadcast.getHash hashes
  if (m.mapSeenFinalizedBudgets.lookup hash).isSome then m
  else
    let collateral := ctx.isBudgetCollateralValid broadcast.nFeeTXHash hash true
    let broadcast := broadcast.stamp collateral
    if !collateral.valid then
      if collateral.nConf ≥ 1 then { m with vecImmatureFinalizedBudgets := m.vecImmatureFinalizedBudgets ++ [broadcast] } else m
    else
      let m := { m with mapSeenFinalizedBudgets := m.mapSeenFinalizedBudgets.insert hash broadcast }
      let checked := broadcast.isValid hashes ctx
      if !checked.1 then m
      else (m.addFinalizedBudget hashes ctx checked.2).checkOrphanVotes hashes ctx

def processFinalizedVote (vote : CFinalizedBudgetVote) : CBudgetManager :=
  if (m.mapSeenFinalizedBudgetVotes.lookup (vote.getHash hashes)).isSome then m
  else if !ctx.find vote.vin then m
  else
    let m := { m with mapSeenFinalizedBudgetVotes := m.mapSeenFinalizedBudgetVotes.insert (vote.getHash hashes) vote }
    if !vote.checkSignature ctx then m
    else (m.updateFinalizedBudget hashes ctx true vote).2

def processMessage (message : Message) : CBudgetManager :=
  if ctx.fLiteMode then m
  else if !ctx.isBlockchainSynced then m
  else match message with
    | .mprop broadcast => m.processProposal hashes ctx broadcast.received
    | .mvote vote => m.processVote hashes ctx { vote with fValid := true }
    | .fbs broadcast => m.processFinalizedBudget hashes ctx broadcast.received
    | .fbvote vote => m.processFinalizedVote hashes ctx { vote with fValid := true }

def run (messages : List (BudgetContext × Message)) : CBudgetManager :=
  messages.foldl (fun m d => m.processMessage hashes d.1 d.2) m

end CBudgetManager

end SchillingCoin
