import SchillingCoin.Masternode.Payments

/-!
Budget proposals, finalized budgets and the payments they schedule, after `CBudgetProposal`, `CFinalizedBudget`
and `CBudgetManager` in `masternode-budget.h` and `masternode-budget.cpp`.
-/

namespace SchillingCoin

inductive TrxValidationStatus where
  | inValid
  | valid
  | doublePayment
  | voteThreshold
  deriving DecidableEq, Repr

structure CTxBudgetPayment where
  nProposalHash : uint256
  payee : CScript
  nAmount : Int
  deriving DecidableEq, Repr

structure CBudgetVote where
  vin : CTxIn
  nProposalHash : uint256
  nVote : Int
  nTime : Int
  fValid : Bool := true
  nMessVersion : MessageVersion := .hash
  vchSig : List UInt8 := []
  deriving DecidableEq, Repr

structure CFinalizedBudgetVote where
  vin : CTxIn
  nBudgetHash : uint256
  nTime : Int
  fValid : Bool := true
  nMessVersion : MessageVersion := .hash
  vchSig : List UInt8 := []
  deriving DecidableEq, Repr

structure CBudgetProposal where
  strProposalName : String := "unknown"
  strURL : String := ""
  nBlockStart : Int := 0
  nBlockEnd : Int := 0
  nAmount : Int := 0
  address : CScript := []
  nTime : Int := 0
  nFeeTXHash : uint256 := 0
  mapVotes : StdMap uint256 CBudgetVote := ∅

structure CFinalizedBudget where
  strBudgetName : String := ""
  nBlockStart : Int
  vecBudgetPayments : List CTxBudgetPayment
  mapVotes : StdMap uint256 CFinalizedBudgetVote := ∅
  nFeeTXHash : uint256 := 0
  nTime : Int := 0

structure CBudgetManager where
  mapProposals : StdMap uint256 CBudgetProposal := ∅
  mapFinalizedBudgets : StdMap uint256 CFinalizedBudget := ∅
  mapSeenMasternodeBudgetProposals : StdMap uint256 CBudgetProposal := ∅
  mapSeenMasternodeBudgetVotes : StdMap uint256 CBudgetVote := ∅
  mapOrphanMasternodeBudgetVotes : StdMap uint256 CBudgetVote := ∅
  mapSeenFinalizedBudgets : StdMap uint256 CFinalizedBudget := ∅
  mapSeenFinalizedBudgetVotes : StdMap uint256 CFinalizedBudgetVote := ∅
  mapOrphanFinalizedBudgetVotes : StdMap uint256 CFinalizedBudgetVote := ∅
  vecImmatureBudgetProposals : List CBudgetProposal := []
  vecImmatureFinalizedBudgets : List CFinalizedBudget := []
  /-- The file-scope `mapPayment_History`: proposals paid and the height that paid them. -/
  mapPaymentHistory : StdMap uint256 Int := ∅
  /-- `mnodeman.CountEnabled(ActiveProtocol())`. -/
  countEnabled : Nat := 0

namespace CFinalizedBudget

variable (b : CFinalizedBudget) (nBlockHeight : Int)

def getBlockStart : Int := b.nBlockStart

def getBlockEnd : Int := b.nBlockStart + (b.vecBudgetPayments.length - 1)

def getVoteCount : Int := b.mapVotes.entries.length

def covers : Bool :=
  decide (nBlockHeight ≥ b.getBlockStart) && decide (nBlockHeight ≤ b.getBlockEnd)

def paymentAt : Option CTxBudgetPayment :=
  let nCurrentBudgetPayment := nBlockHeight - b.getBlockStart
  if nCurrentBudgetPayment < 0 then none else b.vecBudgetPayments[nCurrentBudgetPayment.toNat]?

/-- Payments of other cycles are forgotten; a proposal seen for the first time is recorded. -/
def isPaidAlready (history : StdMap uint256 Int) (nProposalHash : uint256) (nBlockHeight : Int) : Bool × StdMap uint256 Int :=
  let history := StdMap.filter
    (fun _ nPaidBlockHeight => !(decide (nPaidBlockHeight < b.getBlockStart) || decide (nPaidBlockHeight > b.getBlockEnd)))
    history
  if (history.lookup nProposalHash).isNone then (false, history.insert nProposalHash nBlockHeight)
  else (true, history)

/-- The loop over the outputs. A payment found a second time ends it. -/
def checkOutputs (b : CFinalizedBudget) (payment : CTxBudgetPayment) (nBlockHeight : Int) :
    List CTxOut → TrxValidationStatus → StdMap uint256 Int → TrxValidationStatus × StdMap uint256 Int
  | [], status, history => (status, history)
  | out :: outs, status, history =>
    if payment.payee = out.scriptPubKey ∧ payment.nAmount = out.nValue then
      let paid := b.isPaidAlready history payment.nProposalHash nBlockHeight
      if paid.1 then (.doublePayment, paid.2)
      else checkOutputs b payment nBlockHeight outs .valid paid.2
    else checkOutputs b payment nBlockHeight outs status history

def isTransactionValid (history : StdMap uint256 Int) (txNew : CTransaction) (nBlockHeight : Int) :
    TrxValidationStatus × StdMap uint256 Int :=
  match b.paymentAt nBlockHeight with
  | none => (.inValid, history)
  | some payment => b.checkOutputs payment nBlockHeight txNew.vout .inValid history

end CFinalizedBudget

namespace CBudgetManager

variable (m : CBudgetManager) (nBlockHeight : Int)

/-- The most votes of a budget that covers a height, at least `least`. -/
def highestCount (least : Int) : Int :=
  m.mapFinalizedBudgets.entries.foldl (fun nHighestCount e =>
    if e.2.getVoteCount > nHighestCount ∧ e.2.covers nBlockHeight then e.2.getVoteCount else nHighestCount) least

def isBudgetPaymentBlock : Bool :=
  decide (m.highestCount nBlockHeight (-1) > (m.countEnabled / 20 : Nat))

/-- The loop over the finalized budgets: the status so far, whether one passed the vote threshold,
and the payment history. -/
def checkBudgets (nCountThreshold : Int) (txNew : CTransaction) (nBlockHeight : Int) :
    List CFinalizedBudget → TrxValidationStatus → Bool → StdMap uint256 Int →
      TrxValidationStatus × StdMap uint256 Int
  | [], status, fThreshold, history => (if fThreshold then status else .voteThreshold, history)
  | b :: budgets, status, fThreshold, history =>
    if b.getVoteCount > nCountThreshold then
      if b.covers nBlockHeight then
        let checked := b.isTransactionValid history txNew nBlockHeight
        if checked.1 = .valid then checked
        else checkBudgets nCountThreshold txNew nBlockHeight budgets checked.1 true checked.2
      else checkBudgets nCountThreshold txNew nBlockHeight budgets status true history
    else checkBudgets nCountThreshold txNew nBlockHeight budgets status fThreshold history

def isTransactionValid (txNew : CTransaction) (nBlockHeight : Int) : TrxValidationStatus × CBudgetManager :=
  let nHighestCount := m.highestCount nBlockHeight 0
  if nHighestCount < (m.countEnabled / 20 : Nat) then (.inValid, m)
  else
    let nCountThreshold := nHighestCount - (m.countEnabled / 10 : Nat)
    let checked := checkBudgets nCountThreshold txNew nBlockHeight (m.mapFinalizedBudgets.entries.map Sigma.snd)
      .inValid false m.mapPaymentHistory
    (checked.1, { m with mapPaymentHistory := checked.2 })

def Schedules (nAmount : Int) : Prop :=
  ∃ hash b payment, m.mapFinalizedBudgets.lookup hash = some b ∧ b.paymentAt nBlockHeight = some payment ∧
    payment.nAmount = nAmount

end CBudgetManager

end SchillingCoin
