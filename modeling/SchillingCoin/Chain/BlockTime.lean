import SchillingCoin.Chain.BlockIndex
import SchillingCoin.Consensus.Params
import SchillingCoin.Lib.Checked
import SchillingCoin.Lib.Median

/-!
The rules for the time of a block, after `CheckBlockTime` in `main.cpp`, `CBlockIndex` in `chain.cpp` and `timedata.cpp`. The
adjusted time is a parameter.
-/

namespace SchillingCoin

open Checked (refuse)

def nMedianTimeSpan : Nat := 11

namespace CChain

/-- The times of an entry of the chain and of the entries before it, along `pprev`. -/
def timesFrom (c : CChain) (pindex : CBlockIndex) : List Nat := ((c.vChain.take (pindex.nHeight + 1)).map CBlockIndex.nTime).reverse

def getMedianTimePast (c : CChain) (pindex : CBlockIndex) : Nat := Median.median ((c.timesFrom pindex).take nMedianTimeSpan) 0

end CChain

variable (network : Network) (c : CChain)

def CBlockIndex.maxFutureBlockTime (getAdjustedTime : Int) (pindex : CBlockIndex) : Int :=
  getAdjustedTime + network.consensus.futureBlockTimeDrift (pindex.nHeight + 1)

/-- At the first block of time protocol two the one before may be in the future. -/
def CBlockIndex.minPastBlockTime (pindex : CBlockIndex) : Int :=
  if !network.consensus.isTimeProtocolV2 (pindex.nHeight + 1) then c.getMedianTimePast pindex
  else if pindex.nHeight + 1 = network.consensus.height_start_TimeProtoV2 then
    pindex.nTime - network.consensus.futureBlockTimeDrift pindex.nHeight + network.consensus.futureBlockTimeDrift (pindex.nHeight + 1)
  else pindex.nTime

inductive BlockTimeError where
  | time_too_new
  | time_too_old
  | invalid_time_mask
  deriving DecidableEq, Repr

def checkBlockTime (getAdjustedTime : Int) (c : CChain) (blockTime : Nat) (pindexPrev : CBlockIndex) :
    Except BlockTimeError Unit :=
  if network = .regtest then .ok ()
  else do
    refuse (decide ((blockTime : Int) > pindexPrev.maxFutureBlockTime network getAdjustedTime)) .time_too_new
    refuse (decide ((blockTime : Int) ≤ pindexPrev.minPastBlockTime network c)) .time_too_old
    refuse (!network.consensus.isValidBlockTimeStamp blockTime (pindexPrev.nHeight + 1)) .invalid_time_mask

/-- Divisions of `int64_t` truncate. -/
def getTimeSlot (nTime : Int) : Int :=
  nTime.tdiv network.consensus.nTimeSlotLength * network.consensus.nTimeSlotLength

def CChain.TimesAccepted : Prop :=
  ∀ (nHeight : Nat) (pindexPrev pindex : CBlockIndex), c.vChain[nHeight]? = some pindexPrev → c.vChain[nHeight + 1]? = some pindex →
    ∃ getAdjustedTime, checkBlockTime network getAdjustedTime c pindex.nTime pindexPrev = .ok ()

theorem checkBlockTime_ok {network : Network} {getAdjustedTime : Int} {c : CChain} (live : network ≠ .regtest) :
    checkBlockTime network getAdjustedTime c blockTime pindexPrev = .ok () ↔
      (blockTime : Int) ≤ pindexPrev.maxFutureBlockTime network getAdjustedTime ∧
      pindexPrev.minPastBlockTime network c < blockTime ∧
      network.consensus.isValidBlockTimeStamp blockTime (pindexPrev.nHeight + 1) = true := by
  unfold checkBlockTime
  rw [if_neg live]
  constructor
  · intro h
    obtain ⟨future, h⟩ := Checked.after_refuse h
    obtain ⟨past, h⟩ := Checked.after_refuse h
    have mask := Checked.refuse_ok.mp h
    exact ⟨by simpa using future, by simpa using past, by simpa using mask⟩
  · rintro ⟨future, past, mask⟩
    have future : decide ((blockTime : Int) > pindexPrev.maxFutureBlockTime network getAdjustedTime) = false := by simpa using future
    have past : decide ((blockTime : Int) ≤ pindexPrev.minPastBlockTime network c) = false := by simpa using past
    rw [future, past, mask]
    rfl

namespace CChain

theorem timesFrom_succ {c : CChain} {nHeight : Nat} (prev : c.vChain[nHeight]? = some pindexPrev)
    (here : c.vChain[nHeight + 1]? = some pindex) : c.timesFrom pindex = pindex.nTime :: c.timesFrom pindexPrev := by
  have heightPrev := c.heights _ _ prev
  have height := c.heights _ _ here
  simp only [timesFrom, heightPrev, height]
  rw [List.take_add_one (i := nHeight + 1), here]
  simp

theorem getMedianTimePast_le {network : Network} {c : CChain} (live : network ≠ .regtest) (accepted : c.TimesAccepted network)
    (here : c.vChain[nHeight]? = some pindex) (protocol : network.consensus.isTimeProtocolV2 nHeight = false) :
    c.getMedianTimePast pindex ≤ pindex.nTime := by
  have height := c.heights _ _ here
  cases nHeight with
  | zero =>
    have single : c.timesFrom pindex = [pindex.nTime] := by
      simp [timesFrom, height, List.take_add_one, here]
    simp [getMedianTimePast, single, Median.median, nMedianTimeSpan]
  | succ nHeight =>
    have inside := (List.getElem?_eq_some_iff.mp here).1
    obtain ⟨pindexPrev, prev⟩ : ∃ pindexPrev, c.vChain[nHeight]? = some pindexPrev :=
      ⟨_, List.getElem?_eq_getElem (Nat.lt_of_succ_lt inside)⟩
    obtain ⟨getAdjustedTime, passed⟩ := accepted nHeight pindexPrev pindex prev here
    obtain ⟨_, past, _⟩ := (checkBlockTime_ok live).mp passed
    have heightPrev := c.heights _ _ prev
    rw [CBlockIndex.minPastBlockTime, heightPrev, protocol, Bool.not_false, if_pos rfl] at past
    have nonempty : 0 < (c.timesFrom pindexPrev).length := by
      simp only [timesFrom, List.length_reverse, List.length_map, List.length_take]
      omega
    have before : c.getMedianTimePast pindexPrev ≤ pindex.nTime := by omega
    unfold getMedianTimePast at before ⊢
    rw [timesFrom_succ prev here]
    exact Median.median_window_cons (n := 5) nonempty before

end CChain

end SchillingCoin
