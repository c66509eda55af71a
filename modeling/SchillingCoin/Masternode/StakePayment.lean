import SchillingCoin.Masternode.BlockPayee
import SchillingCoin.Stake.FreeOutput
import Mathlib.Tactic.Linarith
import Mathlib.Tactic.Ring

/-!
The masternode payment of a coinstake.
-/

namespace SchillingCoin

namespace CMasternodePayments

variable (taken payment : Int) (outputs : List CTxOut)

def less (o : CTxOut) : CTxOut := { o with nValue := o.nValue - taken }

def shareLoss : List CTxOut :=
  (outputs.map (less (payment.tdiv outputs.length))).modify (outputs.length - 1)
    (less (payment - payment.tdiv outputs.length * outputs.length))

theorem takeFromStake_cons (first : CTxOut) (outputs : List CTxOut) (some_ : 0 < outputs.length) :
    takeFromStake payment (first :: outputs) = first :: shareLoss payment outputs := by
  have positive : outputs.length ≠ 0 := by omega
  unfold takeFromStake shareLoss
  simp only [List.length_cons, Nat.add_sub_cancel]
  by_cases single : outputs.length = 1
  · rw [if_pos (by omega)]
    match outputs with
    | [o] => simp [less]
  · rw [if_neg (by omega), if_pos (by omega)]
    apply List.ext_getElem?
    intro j
    rcases j with _ | j
    · simp [positive]
    · simp only [List.getElem?_modify, List.getElem?_mapIdx, List.getElem?_cons_succ, List.getElem?_map, Nat.add_eq_zero_iff, Nat.one_ne_zero,
        and_false, if_false]
      have same : outputs.length = j + 1 ↔ outputs.length - 1 = j := by omega
      cases outputs[j]? with
      | none => rfl
      | some o => simp [same, less]

theorem sum_map_less :
    ((outputs.map (less taken)).map CTxOut.nValue).sum = (outputs.map CTxOut.nValue).sum - taken * outputs.length := by
  induction outputs with
  | nil => simp
  | cons o outputs ih =>
    rw [List.map_cons, List.map_cons, List.sum_cons, ih, List.map_cons, List.sum_cons, List.length_cons]
    simp only [less]
    push_cast
    ring

theorem sum_modify_less (i : Nat) (inside : i < outputs.length) :
    ((outputs.modify i (less taken)).map CTxOut.nValue).sum = (outputs.map CTxOut.nValue).sum - taken := by
  induction outputs generalizing i with
  | nil => exact absurd inside (Nat.not_lt_zero i)
  | cons o outputs ih =>
    rcases i with _ | i
    · rw [List.modify_zero_cons, List.map_cons, List.map_cons, List.sum_cons, List.sum_cons]
      simp only [less]
      ring
    · rw [List.length_cons] at inside
      rw [List.modify_succ_cons, List.map_cons, List.map_cons, List.sum_cons, List.sum_cons, ih i (by omega)]
      ring

theorem sum_shareLoss (some_ : 0 < outputs.length) :
    ((shareLoss payment outputs).map CTxOut.nValue).sum = (outputs.map CTxOut.nValue).sum - payment := by
  unfold shareLoss
  rw [sum_modify_less _ _ _ (by rw [List.length_map]; omega), sum_map_less]
  ring

theorem length_shareLoss : (shareLoss payment outputs).length = outputs.length := by
  rw [shareLoss, List.length_modify, List.length_map]

theorem getElem_shareLoss {payment : Int} (paid : 0 ≤ payment) (outputs : List CTxOut) {j : Nat} {o : CTxOut} (here : outputs[j]? = some o) :
    ∃ o', (shareLoss payment outputs)[j]? = some o' ∧ o'.scriptPubKey = o.scriptPubKey ∧ o.nValue - payment ≤ o'.nValue ∧
      o'.nValue ≤ o.nValue := by
  have inside : j < outputs.length := (List.getElem?_eq_some_iff.mp here).1
  have count : (0 : Int) < outputs.length := by omega
  have split : payment.tdiv outputs.length = payment / outputs.length := Int.tdiv_eq_ediv_of_nonneg paid
  have nonneg : 0 ≤ payment / outputs.length := Int.ediv_nonneg paid (by omega)
  have most : payment / outputs.length * outputs.length ≤ payment := Int.ediv_mul_le _ (by omega)
  have one : payment / outputs.length * 1 ≤ payment / outputs.length * outputs.length := Int.mul_le_mul_of_nonneg_left (by omega) nonneg
  unfold shareLoss
  rw [List.getElem?_modify, List.getElem?_map, here, split]
  by_cases last : outputs.length - 1 = j
  · refine ⟨less (payment - payment / outputs.length * outputs.length) (less (payment / outputs.length) o), by simp [last], rfl, ?_, ?_⟩
    · show o.nValue - payment ≤ o.nValue - payment / outputs.length - (payment - payment / outputs.length * outputs.length)
      linarith
    · show o.nValue - payment / outputs.length - (payment - payment / outputs.length * outputs.length) ≤ o.nValue
      linarith
  · refine ⟨less (payment / outputs.length) o, by simp [last], rfl, ?_, ?_⟩
    · show o.nValue - payment ≤ o.nValue - payment / outputs.length
      linarith
    · show o.nValue - payment / outputs.length ≤ o.nValue
      linarith

theorem fillBlockPayee_staked (network : Network) {s : CMasternodePayments} (pays : s.payeeToPay tipHeight current = some payee)
    {first : CTxOut} {outputs : List CTxOut} (staked : txNew.vout = first :: second :: outputs)
    (plain : second.isZerocoinMint = false) :
    s.fillBlockPayee network tipHeight current txNew true = some { txNew with
      vout := first :: shareLoss (network.masternodePaymentAt tipHeight) (second :: outputs) ++
        [{ nValue := network.masternodePaymentAt tipHeight, scriptPubKey := payee }] } := by
  have taken := takeFromStake_cons (network.masternodePaymentAt tipHeight) first (second :: outputs) (Nat.succ_pos _)
  rw [← staked] at taken
  rw [← taken, fillBlockPayee, pays]
  simp only [if_true, staked, List.cons_append, List.getElem?_cons_succ, List.getElem?_cons_zero, plain, Bool.false_eq_true, if_false]
  rfl

/-- The payment of a coinstake is one more output and comes from the outputs that were there: their scripts and the first of them stay, and the
total stays. -/
theorem stake_payment_keeps_value (network : Network) (s : CMasternodePayments) (tipHeight : Nat) (current : Option CScript) (txNew : CTransaction)
    (payee : CScript) (pays : s.payeeToPay tipHeight current = some payee) (two : 2 ≤ txNew.vout.length)
    (plain : ∀ second, txNew.vout[1]? = some second → second.isZerocoinMint = false) :
    ∃ txFilled kept, s.fillBlockPayee network tipHeight current txNew true = some txFilled ∧
      txFilled.vout = kept ++ [{ nValue := network.masternodePaymentAt tipHeight, scriptPubKey := payee }] ∧
      kept.length = txNew.vout.length ∧ kept[0]? = txNew.vout[0]? ∧
      (∀ (j : Nat) o, txNew.vout[j]? = some o → ∃ o', kept[j]? = some o' ∧ o'.scriptPubKey = o.scriptPubKey ∧
        o.nValue - network.masternodePaymentAt tipHeight ≤ o'.nValue ∧ o'.nValue ≤ o.nValue) ∧
      (txFilled.vout.map CTxOut.nValue).sum = (txNew.vout.map CTxOut.nValue).sum := by
  obtain ⟨first, second, outputs, staked⟩ : ∃ first second outputs, txNew.vout = first :: second :: outputs := by
    match same : txNew.vout with
    | [] => rw [same] at two; exact absurd two (by decide)
    | [_] => rw [same] at two; exact absurd two (by simp)
    | first :: second :: outputs => exact ⟨first, second, outputs, rfl⟩
  have paid : 0 ≤ network.masternodePaymentAt tipHeight := CTransaction.getMasternodePayment_nonneg network tipHeight
  have filled := fillBlockPayee_staked network pays staked (plain second (by rw [staked]; rfl))
  refine ⟨_, first :: shareLoss (network.masternodePaymentAt tipHeight) (second :: outputs), filled, rfl, ?_, ?_, ?_, ?_⟩
  · rw [staked, List.length_cons, length_shareLoss]
    rfl
  · rw [staked]
    rfl
  · intro j o here
    rw [staked] at here
    rcases j with _ | j
    · obtain rfl := Option.some.inj here
      exact ⟨first, rfl, rfl, by omega, Int.le_refl _⟩
    · exact getElem_shareLoss paid (second :: outputs) here
  · rw [staked]
    have shares := sum_shareLoss (network.masternodePaymentAt tipHeight) (second :: outputs) (Nat.succ_pos _)
    simp only [List.cons_append, List.map_cons, List.map_append, List.sum_cons, List.sum_append, List.map_nil, List.sum_nil] at shares ⊢
    omega

/-- A stake split in three: 2583999920 is no multiple of three, and the last share loses the rest. -/
theorem split_stake_keeps_value :
    ∃ txFilled, (sixVotes 201).fillBlockPayee .main 200 none
      { stakeOf 4000000000 with vout := [payTo 0 [], payTo 4000000000 [0x52], payTo 4000000000 [0x52], payTo 4000000000 [0x52]] } true =
        some txFilled ∧ (txFilled.vout.map CTxOut.nValue).sum = 12000000000 := by
  obtain ⟨txFilled, _, filled, _, _, _, _, total⟩ := stake_payment_keeps_value .main (sixVotes 201) 200 none
    { stakeOf 4000000000 with vout := [payTo 0 [], payTo 4000000000 [0x52], payTo 4000000000 [0x52], payTo 4000000000 [0x52]] } [0x51]
    (by decide) (by decide) fun second here => by cases here; decide
  exact ⟨txFilled, filled, total⟩

end CMasternodePayments

end SchillingCoin
