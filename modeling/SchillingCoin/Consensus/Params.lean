import SchillingCoin.Primitives.Transaction

/-!
The consensus parameters of the three networks, after `consensus/params.h` and `chainparams.cpp`,
and the block subsidy.
-/

namespace SchillingCoin

inductive Network where
  | main
  | testnet
  | regtest
  deriving DecidableEq, Repr

namespace Consensus

structure Params where
  nBudgetCycleBlocks : Nat
  nBudgetFeeConfirmations : Nat
  nCoinbaseMaturity : Nat
  nFutureTimeDriftPoW : Nat
  nFutureTimeDriftPoS : Nat
  nMasternodeCountDrift : Nat
  nMaxMoneyOut : Int
  nStakeMinAge : Nat
  nStakeMinDepth : Nat
  nTimeSlotLength : Nat
  nTime_EnforceNewSporkKey : Int
  nTime_RejectOldSporkKey : Int
  height_last_PoW : Nat
  height_RHF : Nat
  height_start_BIP65 : Nat
  height_start_MessSignaturesV2 : Nat
  height_start_StakeModifierV2 : Nat
  height_start_TimeProtoV2 : Nat
  height_start_ZC : Nat
  ZC_TimeStart : Int

namespace Params

variable (p : Params) (nHeight : Nat)

def moneyRange (nValue : Int) : Bool := decide (0 ≤ nValue) && decide (nValue ≤ p.nMaxMoneyOut)

def isStakeModifierV2 : Bool := decide (nHeight ≥ p.height_start_StakeModifierV2)

def isTimeProtocolV2 : Bool := decide (nHeight ≥ p.height_start_TimeProtoV2)

def futureBlockTimeDrift : Int :=
  if p.isTimeProtocolV2 nHeight then p.nTimeSlotLength - 1
  else if nHeight > p.height_last_PoW then p.nFutureTimeDriftPoS
  else p.nFutureTimeDriftPoW

def isValidBlockTimeStamp (nTime : Int) (nHeight : Nat) : Bool :=
  !p.isTimeProtocolV2 nHeight || nTime.tmod p.nTimeSlotLength == 0

def hasStakeMinAgeOrDepth (contextHeight contextTime utxoFromBlockHeight utxoFromBlockTime : Nat) : Bool :=
  if !p.isStakeModifierV2 contextHeight then decide ((utxoFromBlockTime + p.nStakeMinAge) % 2 ^ 32 ≤ contextTime)
  else decide ((contextHeight : Int) - utxoFromBlockHeight ≥ p.nStakeMinDepth)

def isMessSigV2 (nHeight : Int) : Bool := decide (nHeight ≥ p.height_start_MessSignaturesV2)

end Params

end Consensus

namespace Network

/-- `height_RHF` is set on the main network only; elsewhere it keeps the zero of static storage. -/
def consensus : Network → Consensus.Params
  | main =>
    { nBudgetCycleBlocks := 43200
      nBudgetFeeConfirmations := 6
      nCoinbaseMaturity := 49
      nFutureTimeDriftPoW := 7200
      nFutureTimeDriftPoS := 180
      nMasternodeCountDrift := 20
      nMaxMoneyOut := 200000000 * COIN
      nStakeMinAge := 60 * 60
      nStakeMinDepth := 60
      nTimeSlotLength := 15
      nTime_EnforceNewSporkKey := 1602237600
      nTime_RejectOldSporkKey := 1604138400
      height_last_PoW := 100
      height_RHF := 1040000
      height_start_BIP65 := 1040000
      height_start_MessSignaturesV2 := 1040000
      height_start_StakeModifierV2 := 1040000
      height_start_TimeProtoV2 := 1040000
      height_start_ZC := 101
      ZC_TimeStart := 1541434110 }
  | testnet =>
    { nBudgetCycleBlocks := 144
      nBudgetFeeConfirmations := 3
      nCoinbaseMaturity := 15
      nFutureTimeDriftPoW := 7200
      nFutureTimeDriftPoS := 180
      nMasternodeCountDrift := 4
      nMaxMoneyOut := 83000000 * COIN
      nStakeMinAge := 60 * 60
      nStakeMinDepth := 100
      nTimeSlotLength := 15
      nTime_EnforceNewSporkKey := 1566860400
      nTime_RejectOldSporkKey := 1569538800
      height_last_PoW := 200
      height_RHF := 0
      height_start_BIP65 := 851019
      height_start_MessSignaturesV2 := 1347000
      height_start_StakeModifierV2 := 1214000
      height_start_TimeProtoV2 := 1347000
      height_start_ZC := 201576
      ZC_TimeStart := 1501776000 }
  | regtest =>
    { nBudgetCycleBlocks := 144
      nBudgetFeeConfirmations := 3
      nCoinbaseMaturity := 100
      nFutureTimeDriftPoW := 7200
      nFutureTimeDriftPoS := 180
      nMasternodeCountDrift := 4
      nMaxMoneyOut := 43199500 * COIN
      nStakeMinAge := 0
      nStakeMinDepth := 2
      nTimeSlotLength := 15
      nTime_EnforceNewSporkKey := 1566860400
      nTime_RejectOldSporkKey := 1569538800
      height_last_PoW := 250
      height_RHF := 0
      height_start_BIP65 := 851019
      height_start_MessSignaturesV2 := 1
      height_start_StakeModifierV2 := 251
      height_start_TimeProtoV2 := 999999999
      height_start_ZC := 300
      ZC_TimeStart := 0 }

variable (network : Network) (nHeight : Int)

/-- The subsidy of the block after height `nHeight`. The product `32.3 * COIN` is computed in
double precision and truncated. -/
def getBlockValue : Int :=
  if network = testnet ∧ nHeight < 200 ∧ nHeight > 0 then 1000000 * COIN
  else if nHeight = 0 then 22000000 * COIN
  else 3229999999

def getMasternodePayment (blockValue : Int) : Int :=
  if nHeight ≤ 100 then blockValue.tdiv 100 * 0 else blockValue.tdiv 100 * 80

theorem maturity_pos : 0 < network.consensus.nCoinbaseMaturity := by
  cases network <;> decide

theorem getBlockValue_nonneg : 0 ≤ network.getBlockValue nHeight := by
  unfold getBlockValue
  split
  · decide
  · split <;> decide

end Network

end SchillingCoin
