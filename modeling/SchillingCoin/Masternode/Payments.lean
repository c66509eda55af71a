import SchillingCoin.Lib.StdMap
import SchillingCoin.Consensus.Params

/-!
Votes of masternodes on the payee of a block, after `masternode-payments.h` and
`masternode-payments.cpp`: the tally of a height, the `mnw` message and the cleaning of old votes.
-/

namespace SchillingCoin

def MNPAYMENTS_SIGNATURES_REQUIRED : Int := 6
def MNPAYMENTS_SIGNATURES_TOTAL : Int := 10

inductive MessageVersion where
  | strMess
  | hash
  deriving DecidableEq, Repr

structure CMasternodePayee where
  scriptPubKey : CScript
  nVotes : Int
  deriving DecidableEq, Repr

structure CMasternodeBlockPayees where
  nBlockHeight : Int
  vecPayments : List CMasternodePayee := []
  deriving DecidableEq, Repr

structure CMasternodePaymentWinner where
  vinMasternode : CTxIn
  nBlockHeight : Int
  payee : CScript
  nMessVersion : MessageVersion := .hash
  vchSig : List UInt8 := []
  deriving DecidableEq, Repr

namespace CMasternodeBlockPayees

/-- The loop of `AddPayee`: the first entry of the payee gains the increment, or a new entry is added. -/
def addVotes (payeeIn : CScript) (nIncrement : Int) : List CMasternodePayee → List CMasternodePayee
  | [] => [⟨payeeIn, nIncrement⟩]
  | p :: rest =>
    if p.scriptPubKey = payeeIn then { p with nVotes := p.nVotes + nIncrement } :: rest
    else p :: addVotes payeeIn nIncrement rest

variable (b : CMasternodeBlockPayees)

def addPayee (payeeIn : CScript) (nIncrement : Int) : CMasternodeBlockPayees :=
  { b with vecPayments := addVotes payeeIn nIncrement b.vecPayments }

def getPayee : Option CScript :=
  (b.vecPayments.foldl (fun best p => if p.nVotes > best.2 then (some p.scriptPubKey, p.nVotes) else best)
    ((none : Option CScript), (-1 : Int))).1

/-- A block pays some payee that six masternodes agree on. Without one, every block passes. -/
def isTransactionValid (network : Network) (b : CMasternodeBlockPayees) (txNew : CTransaction) : Bool :=
  let nReward := network.getBlockValue b.nBlockHeight
  let requiredMasternodePayment := Network.getMasternodePayment b.nBlockHeight nReward
  let nMaxSignatures := b.vecPayments.foldl (fun nMax p =>
    if p.nVotes ≥ nMax ∧ p.nVotes ≥ MNPAYMENTS_SIGNATURES_REQUIRED then p.nVotes else nMax) 0
  if nMaxSignatures < MNPAYMENTS_SIGNATURES_REQUIRED then true
  else b.vecPayments.any fun payee =>
    decide (payee.nVotes ≥ MNPAYMENTS_SIGNATURES_REQUIRED) &&
    txNew.vout.any fun out => payee.scriptPubKey == out.scriptPubKey && out.nValue == requiredMasternodePayment

end CMasternodeBlockPayees

/-- What the node knows apart from its payment votes when it handles a message. -/
structure MasternodeContext where
  network : Network
  isBlockchainSynced : Bool := true
  fLiteMode : Bool := false
  peerVersion : Int
  activeProtocol : Int
  /-- The height of the tip, when there is one and `cs_main` is free. -/
  tipHeight : Option Int
  countEnabled : Nat
  size : Nat
  find : COutPoint → Option Int
  getMasternodeRank : COutPoint → Int → Int
  checkSignature : CMasternodePaymentWinner → Bool
  getBlockHash : Int → Option uint256

structure CMasternodePayments where
  mapMasternodePayeeVotes : StdMap uint256 CMasternodePaymentWinner := ∅
  mapMasternodeBlocks : StdMap Int CMasternodeBlockPayees := ∅
  mapMasternodesLastVote : StdMap COutPoint Int := ∅

namespace CMasternodePaymentWinner

def getHash (hash : CScript → Int → COutPoint → uint256) (w : CMasternodePaymentWinner) : uint256 :=
  hash w.payee w.nBlockHeight w.vinMasternode.prevout

def isValid (ctx : MasternodeContext) (w : CMasternodePaymentWinner) : Bool :=
  match ctx.find w.vinMasternode.prevout with
  | none => false
  | some protocolVersion =>
    if protocolVersion < ctx.activeProtocol then false
    else decide (ctx.getMasternodeRank w.vinMasternode.prevout (w.nBlockHeight - 100) ≤ MNPAYMENTS_SIGNATURES_TOTAL)

end CMasternodePaymentWinner

namespace CMasternodePayments

variable (s : CMasternodePayments) (ctx : MasternodeContext) (nHeight : Int)

/-- The last height a masternode voted on is remembered, whether or not the vote is kept. -/
def canVote (outMasternode : COutPoint) (nBlockHeight : Int) : Bool × CMasternodePayments :=
  if s.mapMasternodesLastVote.lookup outMasternode = some nBlockHeight then (false, s)
  else (true, { s with mapMasternodesLastVote := s.mapMasternodesLastVote.insert outMasternode nBlockHeight })

def addWinningMasternode (hash : CScript → Int → COutPoint → uint256) (ctx : MasternodeContext)
    (s : CMasternodePayments) (winnerIn : CMasternodePaymentWinner) : Bool × CMasternodePayments :=
  match ctx.getBlockHash (winnerIn.nBlockHeight - 100) with
  | none => (false, s)
  | some _ =>
    if (s.mapMasternodePayeeVotes.lookup (winnerIn.getHash hash)).isSome then (false, s)
    else
      let blockPayees := (s.mapMasternodeBlocks.lookup winnerIn.nBlockHeight).getD ⟨winnerIn.nBlockHeight, []⟩
      (true, { s with
        mapMasternodePayeeVotes := s.mapMasternodePayeeVotes.insert (winnerIn.getHash hash) winnerIn
        mapMasternodeBlocks :=
          s.mapMasternodeBlocks.insert winnerIn.nBlockHeight (blockPayees.addPayee winnerIn.payee 1) })

/-- The window of heights a vote may be for. The factor 1.25 is applied in double precision and the
difference truncated. -/
def inRange (w : CMasternodePaymentWinner) : Bool :=
  let nFirstBlock := (4 * nHeight - 5 * ctx.countEnabled).tdiv 4
  !(decide (w.nBlockHeight < nFirstBlock) || decide (w.nBlockHeight > nHeight + 20))

def processWinner (hash : CScript → Int → COutPoint → uint256) (ctx : MasternodeContext)
    (s : CMasternodePayments) (winner : CMasternodePaymentWinner) : CMasternodePayments :=
  if !ctx.isBlockchainSynced then s
  else if ctx.fLiteMode then s
  else if ctx.peerVersion < ctx.activeProtocol then s
  else match ctx.tipHeight with
    | none => s
    | some nHeight =>
      if (s.mapMasternodePayeeVotes.lookup (winner.getHash hash)).isSome then s
      else if !inRange ctx nHeight winner then s
      else if winner.nMessVersion ≠ .hash ∧ ctx.network.consensus.isMessSigV2 (winner.nBlockHeight - 6000) then s
      else if !winner.isValid ctx then s
      else
        let voted := s.canVote winner.vinMasternode.prevout winner.nBlockHeight
        if !voted.1 then s
        else if !ctx.checkSignature winner then voted.2
        else (addWinningMasternode hash ctx voted.2 winner).2

def tooOld (w : CMasternodePaymentWinner) : Bool :=
  decide (nHeight - w.nBlockHeight > max (ctx.size * 5 / 4 : Int) 1000)

def cleanVote (s : CMasternodePayments) (hash : uint256) (winner : CMasternodePaymentWinner) : CMasternodePayments :=
  if tooOld ctx nHeight winner then
    { s with
      mapMasternodePayeeVotes := s.mapMasternodePayeeVotes.erase hash
      mapMasternodeBlocks := s.mapMasternodeBlocks.erase winner.nBlockHeight }
  else s

def cleanPaymentList (s : CMasternodePayments) : CMasternodePayments :=
  match ctx.tipHeight with
  | none => s
  | some nHeight => s.mapMasternodePayeeVotes.entries.foldl (fun s e => cleanVote ctx nHeight s e.1 e.2) s

def getBlockPayee (nBlockHeight : Int) : Option CScript :=
  (s.mapMasternodeBlocks.lookup nBlockHeight).bind CMasternodeBlockPayees.getPayee

def isTransactionValid (network : Network) (s : CMasternodePayments) (txNew : CTransaction) (nBlockHeight : Int) :
    Bool :=
  match s.mapMasternodeBlocks.lookup nBlockHeight with
  | none => true
  | some payees => payees.isTransactionValid network txNew

end CMasternodePayments

end SchillingCoin
