import SchillingCoin.Mining.Selection
import SchillingCoin.Validation.Ledger
import SchillingCoin.Wallet.CreateTransaction

/-!
Fee rates as the order of the priority queue, after `CFeeRate` in `amount.cpp` and `TxPriorityCompare` in `miner.cpp`.
-/

namespace SchillingCoin

instance (x : Int) : Decidable (FitsInt64 x) := inferInstanceAs (Decidable (_ ∧ _))

/-- The constructor from a fee and a size, nothing where the product overflows. The size has no sign, and so the quotient is computed
without one. -/
def CFeeRate.ofFee (nFeePaid : Int) (nSize : Nat) : Option CFeeRate :=
  if nSize > 0 then
    if FitsInt64 (nFeePaid * 1000) then some ⟨int64 (nFeePaid * 1000 % 2 ^ 64 / nSize)⟩ else none
  else some ⟨0⟩

/-- `TxPriorityCompare`: whether `b` is taken off the queue before `a`. -/
def txPriorityCompare {Double : Type} [BEq Double] [LT Double] [DecidableLT Double] (byFee : Bool) (a b : TxPriority Double) : Bool :=
  if byFee then
    if a.feeRate = b.feeRate then decide (a.dPriority < b.dPriority) else decide (a.feeRate < b.feeRate)
  else
    if a.dPriority == b.dPriority then decide (a.feeRate < b.feeRate) else decide (a.dPriority < b.dPriority)

namespace CFeeRate

theorem ofFee_fits (positive : 0 < nSize) (h : ofFee nFeePaid nSize = some rate) : FitsInt64 (nFeePaid * 1000) := by
  rw [ofFee, if_pos positive] at h
  split at h
  · next fits => exact fits
  · exact nomatch h

theorem ofFee_nonneg (positive : 0 < nSize) (fits : FitsInt64 (nFeePaid * 1000)) (nonneg : 0 ≤ nFeePaid) :
    ofFee nFeePaid nSize = some ⟨nFeePaid * 1000 / nSize⟩ := by
  obtain ⟨-, above⟩ := id fits
  have same : nFeePaid * 1000 % 2 ^ 64 = nFeePaid * 1000 := Int.emod_eq_of_lt (by omega) (by omega)
  have quotient : nFeePaid * 1000 / nSize ≤ nFeePaid * 1000 := Int.ediv_le_self _ (by omega)
  have least : 0 ≤ nFeePaid * 1000 / nSize := Int.ediv_nonneg (by omega) (by omega)
  rw [ofFee, if_pos positive, if_pos fits, same, int64_of_fits ⟨by omega, by omega⟩]

theorem ofFee_one (fits : FitsInt64 (nFeePaid * 1000)) : ofFee nFeePaid 1 = some ⟨nFeePaid * 1000⟩ := by
  have back : int64 (nFeePaid * 1000 % 2 ^ 64) = int64 (nFeePaid * 1000) := Int.emod_bmod (nFeePaid * 1000) (2 ^ 64)
  rw [ofFee, if_pos Nat.one_pos, if_pos fits, Nat.cast_one, Int.ediv_one, back, int64_of_fits fits]

theorem ofFee_negative (fits : FitsInt64 (nFeePaid * 1000)) (negative : nFeePaid < 0) (more : 2 ≤ nSize)
    (small : nSize ≤ MAX_BLOCK_SIZE_CURRENT) : ∃ rate, ofFee nFeePaid nSize = some rate ∧ 0 < rate.nSatoshisPerK := by
  have size : nSize ≤ 2000000 := small
  have positive : (0 : Int) < nSize := by omega
  obtain ⟨below, -⟩ := id fits
  have unsigned : nFeePaid * 1000 % 2 ^ 64 = nFeePaid * 1000 + 2 ^ 64 := by omega
  have least : 0 < nFeePaid * 1000 % 2 ^ 64 / nSize := by
    have divides : 1 ≤ nFeePaid * 1000 % 2 ^ 64 / nSize := (Int.le_ediv_iff_mul_le positive).mpr (by omega)
    omega
  have most : nFeePaid * 1000 % 2 ^ 64 / nSize < 2 ^ 63 := (Int.ediv_lt_iff_lt_mul positive).mpr (by omega)
  refine ⟨_, by rw [ofFee, if_pos (by omega), if_pos fits], ?_⟩
  rw [int64_of_fits ⟨by omega, most⟩]
  exact least

end CFeeRate

/-- The entry of a transaction whose rate was lowered is not before that with its original rate, and does not pass the test against the
relay fee where the original one fails. -/
structure NeverForward (lowered original : CFeeRate) : Prop where
  before : ∀ {Double : Type} [BEq Double] [LT Double] [DecidableLT Double] (byFee : Bool) (dPriority : Double) (tx : CTransaction)
    (other : TxPriority Double), txPriorityCompare byFee ⟨dPriority, original.nSatoshisPerK, tx⟩ other = true →
      txPriorityCompare byFee ⟨dPriority, lowered.nSatoshisPerK, tx⟩ other = true
  after : ∀ {Double : Type} [BEq Double] [LT Double] [DecidableLT Double] (byFee : Bool) (dPriority : Double) (tx : CTransaction)
    (other : TxPriority Double), txPriorityCompare byFee other ⟨dPriority, lowered.nSatoshisPerK, tx⟩ = true →
      txPriorityCompare byFee other ⟨dPriority, original.nSatoshisPerK, tx⟩ = true
  relay : ∀ minRelayTxFee : CFeeRate, original.nSatoshisPerK < minRelayTxFee.nSatoshisPerK → lowered.nSatoshisPerK < minRelayTxFee.nSatoshisPerK

theorem neverForward_of_le (le : lowered.nSatoshisPerK ≤ original.nSatoshisPerK) :
    NeverForward lowered original where
  before := by
    intro Double _ _ _ byFee dPriority tx other
    unfold txPriorityCompare
    dsimp only
    cases byFee with
    | true =>
      simp only [if_true]
      split
      · next same =>
        split
        · exact id
        · exact fun _ => decide_eq_true (by omega)
      · next differ =>
        intro less
        have less := of_decide_eq_true less
        rw [if_neg (by omega)]
        exact decide_eq_true (by omega)
    | false =>
      simp only [Bool.false_eq_true, if_false]
      split
      · exact fun less => decide_eq_true (Int.lt_of_le_of_lt le (of_decide_eq_true less))
      · exact id
  after := by
    intro Double _ _ _ byFee dPriority tx other
    unfold txPriorityCompare
    dsimp only
    cases byFee with
    | true =>
      simp only [if_true]
      split
      · next same =>
        split
        · exact id
        · exact fun _ => decide_eq_true (by omega)
      · next differ =>
        intro less
        have less := of_decide_eq_true less
        rw [if_neg (by omega)]
        exact decide_eq_true (by omega)
    | false =>
      simp only [Bool.false_eq_true, if_false]
      split
      · exact fun less => decide_eq_true (Int.lt_of_lt_of_le (of_decide_eq_true less) le)
      · exact id
  relay := fun _ less => Int.lt_of_le_of_lt le less

/-- The rates of two fees at a size are in the order of the fees, that of a negative one is not positive, and a transaction whose fee is
lowered from the one to the other is not moved forward. -/
def FeesOrdered (nSize : Nat) (a b : Int) : Prop :=
  ∃ lowered original, CFeeRate.ofFee a nSize = some lowered ∧ CFeeRate.ofFee b nSize = some original ∧
    lowered.nSatoshisPerK ≤ original.nSatoshisPerK ∧ (a < 0 → lowered.nSatoshisPerK ≤ 0) ∧ NeverForward lowered original

/-- Rates are in the order of fees where a thousand times each fits 64 bits, and none is negative or the size is one: the size is unsigned
in the division. -/
theorem feesOrdered_iff {nSize : Nat} (positive : 0 < nSize) (small : nSize ≤ MAX_BLOCK_SIZE_CURRENT) {a b : Int} (ordered : a ≤ b) :
    FeesOrdered nSize a b ↔ FitsInt64 (a * 1000) ∧ FitsInt64 (b * 1000) ∧ (0 ≤ a ∨ nSize = 1) := by
  constructor
  · intro ⟨lowered, original, rate, rate', le, sign, _⟩
    have fits := CFeeRate.ofFee_fits positive rate
    refine ⟨fits, CFeeRate.ofFee_fits positive rate', ?_⟩
    by_contra neither
    obtain ⟨other, found, above⟩ := CFeeRate.ofFee_negative fits (by omega) (by omega) small
    obtain rfl : lowered = other := Option.some.inj (rate.symm.trans found)
    have below := sign (by omega)
    omega
  · intro ⟨fits, fits', meets⟩
    rcases meets with nonneg | one
    · have le : a * 1000 / (nSize : Int) ≤ b * 1000 / nSize := Int.ediv_le_ediv (by omega) (by omega)
      exact ⟨_, _, CFeeRate.ofFee_nonneg positive fits nonneg, CFeeRate.ofFee_nonneg positive fits' (by omega), le, by omega,
        neverForward_of_le le⟩
    · rw [one]
      have le : a * 1000 ≤ b * 1000 := by omega
      have sign : a < 0 → a * 1000 ≤ 0 := by omega
      exact ⟨_, _, CFeeRate.ofFee_one fits, CFeeRate.ofFee_one fits', le, sign, neverForward_of_le le⟩

theorem feesOrdered_coins : FeesOrdered 250 100 200 :=
  (feesOrdered_iff (by decide) (by decide) (by decide)).mpr ⟨by decide, by decide, Or.inl (by decide)⟩

/-- A fee that a delta lowered below zero goes to the front. -/
theorem negativeFee_forward : ¬∀ (network : Network) (nSize : Nat) (a b : Int), 0 < nSize → nSize ≤ MAX_BLOCK_SIZE_CURRENT → a ≤ b →
    |a| ≤ network.consensus.nMaxMoneyOut → |b| ≤ network.consensus.nMaxMoneyOut → FeesOrdered nSize a b := by
  intro always
  obtain ⟨lowered, original, rate, _, _, sign, _⟩ := always .main 2 (-1) 0 (by decide) (by decide) (by decide) (by decide) (by decide)
  obtain rfl := Option.some.inj rate
  exact absurd (sign (by decide)) (by decide)

end SchillingCoin
