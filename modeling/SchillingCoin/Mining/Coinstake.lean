import Mathlib.Algebra.Order.Ring.Int
import SchillingCoin.Mining.BlockTemplate

/-!
The outputs of a coinstake, from the number of shares, the credit and the payee: what `CreateTxOuts`, the division of the credit and
`FillBlockPayee` come to together.
-/

namespace SchillingCoin

namespace PayeeState

variable (s : PayeeState) (network : Network) (tipHeight : Nat)

def paysBudget : Bool := s.superblocks && s.budget.isBudgetPaymentBlock (tipHeight + 1)

def payeeOutput : Option CTxOut :=
  if s.paysBudget tipHeight then
    let best := s.budget.winningPayment (tipHeight + 1)
    if best.1 > 0 then some { nValue := best.2.2, scriptPubKey := best.2.1 } else none
  else (s.masternodePayments.payeeToPay tipHeight s.currentMasterNode).map fun payee =>
    { nValue := network.masternodePaymentAt tipHeight, scriptPubKey := payee }

/-- What it takes from the outputs of a coinstake, given the script of the first of them. -/
def takenFromStake (scriptPubKey : CScript) : Int :=
  if s.paysBudget tipHeight || CScript.isZerocoinMint scriptPubKey then 0
  else if (s.masternodePayments.payeeToPay tipHeight s.currentMasterNode).isSome then network.masternodePaymentAt tipHeight
  else 0

theorem fillBlockPayee_stake (txNew : CTransaction) (outputs : txNew.vout = marker :: first :: rest) :
    s.fillBlockPayee network tipHeight txNew true =
      some { txNew with
        vout := CMasternodePayments.takeFromStake (s.takenFromStake network tipHeight first.scriptPubKey) txNew.vout ++
          (s.payeeOutput network tipHeight).toList } := by
  unfold fillBlockPayee takenFromStake payeeOutput
  by_cases budget : s.paysBudget tipHeight = true
  · have same : (s.superblocks && s.budget.isBudgetPaymentBlock (tipHeight + 1)) = true := budget
    rw [if_pos same]
    simp only [budget, Bool.true_or, if_true, CMasternodePayments.takeFromStake_zero, CBudgetManager.fillBlockPayee]
    by_cases voted : (s.budget.winningPayment (tipHeight + 1)).1 > 0
    · rw [if_pos voted, if_pos voted, Option.toList_some]
    · rw [if_neg voted, if_neg voted, Option.toList_none, List.append_nil]
  · have same : ¬(s.superblocks && s.budget.isBudgetPaymentBlock (tipHeight + 1)) = true := budget
    rw [if_neg same, CMasternodePayments.fillBlockPayee]
    rw [Bool.not_eq_true] at budget
    simp only [budget, Bool.false_or, Bool.false_eq_true, if_false]
    cases s.masternodePayments.payeeToPay tipHeight s.currentMasterNode with
    | none => simp [CMasternodePayments.takeFromStake_zero]
    | some payee =>
      by_cases mint : CScript.isZerocoinMint first.scriptPubKey = true
      · simp [outputs, CTxOut.isZerocoinMint, mint, CMasternodePayments.takeFromStake_zero, Network.masternodePaymentAt]
      · simp [outputs, CTxOut.isZerocoinMint, mint, Network.masternodePaymentAt]

theorem fillBlockPayee_work (outputs : txNew.vout = [first]) :
    ∃ vout, s.fillBlockPayee network tipHeight txNew false = some { txNew with vout } ∧
      (s.payeeOutput network tipHeight = none → ∃ nValue, vout = [{ first with nValue }]) ∧
      ((s.payeeOutput network tipHeight).isSome → vout.length = 2) := by
  unfold fillBlockPayee payeeOutput
  by_cases budget : s.paysBudget tipHeight = true
  · have same : (s.superblocks && s.budget.isBudgetPaymentBlock (tipHeight + 1)) = true := budget
    rw [if_pos same]
    simp only [budget, if_true, CBudgetManager.fillBlockPayee, outputs, Bool.false_eq_true, if_false]
    by_cases voted : (s.budget.winningPayment (tipHeight + 1)).1 > 0
    · rw [if_pos voted, if_pos voted]
      exact ⟨_, rfl, nofun, fun _ => rfl⟩
    · rw [if_neg voted, if_neg voted]
      exact ⟨_, rfl, fun _ => ⟨_, rfl⟩, nofun⟩
  · have same : ¬(s.superblocks && s.budget.isBudgetPaymentBlock (tipHeight + 1)) = true := budget
    rw [if_neg same, if_neg budget, CMasternodePayments.fillBlockPayee]
    cases s.masternodePayments.payeeToPay tipHeight s.currentMasterNode with
    | none => exact ⟨txNew.vout, rfl, fun _ => ⟨first.nValue, outputs⟩, nofun⟩
    | some payee => exact ⟨_, rfl, nofun, fun _ => rfl⟩

end PayeeState

def stakeShare (n : Nat) (nCredit taken : Int) : Int := nCredit.tdiv n - taken.tdiv n

def lastStakeShare (n : Nat) (nCredit taken : Int) : Int := nCredit - taken - stakeShare n nCredit taken * (n - 1 : Nat)

def stakeOutputs (scriptPubKey : CScript) (n : Nat) (nCredit taken : Int) : List CTxOut :=
  List.replicate (n - 1) { nValue := stakeShare n nCredit taken, scriptPubKey } ++
    [{ nValue := lastStakeShare n nCredit taken, scriptPubKey }]

variable {n : Nat} {nCredit taken : Int}

@[simp] theorem length_stakeOutputs (positive : 0 < n) (scriptPubKey : CScript) (nCredit taken : Int) :
    (stakeOutputs scriptPubKey n nCredit taken).length = n := by
  simp only [stakeOutputs, List.length_append, List.length_replicate, List.length_singleton]
  omega

@[simp] theorem length_shareCredit (nCredit : Int) (vout : List CTxOut) : (shareCredit nCredit vout).length = vout.length := by
  simp [shareCredit]

theorem getElem_stakeOutputs (h : i < (stakeOutputs scriptPubKey n nCredit taken).length) :
    (stakeOutputs scriptPubKey n nCredit taken)[i] =
      { nValue := if i + 1 < n then stakeShare n nCredit taken else lastStakeShare n nCredit taken, scriptPubKey } := by
  simp only [stakeOutputs, List.getElem_append, List.length_replicate, List.getElem_replicate, List.getElem_singleton]
  by_cases early : i < n - 1
  · rw [dif_pos early, if_pos (by omega)]
  · rw [dif_neg early, if_neg (by omega)]

theorem takeFromStake_shareCredit (positive : 0 < n) (scriptPubKey : CScript) (nCredit taken : Int) :
    CMasternodePayments.takeFromStake taken (.empty :: shareCredit nCredit (List.replicate n { nValue := 0, scriptPubKey })) =
      .empty :: stakeOutputs scriptPubKey n nCredit taken := by
  have count : (CTxOut.empty :: shareCredit nCredit (List.replicate n { nValue := 0, scriptPubKey })).length = n + 1 := by simp
  unfold CMasternodePayments.takeFromStake
  simp only [count, Nat.add_sub_cancel]
  by_cases single : n = 1
  · subst single
    simp [shareCredit, stakeOutputs, stakeShare, lastStakeShare]
  · rw [if_neg (by omega), if_pos (by omega)]
    apply List.ext_getElem
    · simp [positive]
    intro i here there
    rcases i with _ | i
    · simp [show n ≠ 0 by omega]
    · rw [List.getElem_cons_succ, getElem_stakeOutputs]
      simp only [List.length_cons, length_stakeOutputs positive] at there
      simp only [List.getElem_modify, List.getElem_mapIdx, List.getElem_cons_succ, shareCredit, List.length_replicate,
        List.getElem_replicate, Nat.add_eq_zero_iff, Nat.one_ne_zero, and_false, if_false]
      by_cases last : i + 1 = n
      · subst last
        simp [lastStakeShare, stakeShare]
        ring
      · rw [if_neg (by omega), if_neg (by omega), if_pos (by omega)]
        rfl

theorem stakeShare_values (positive : 0 < n) (few : n ≤ MAX_STANDARD_TX_SIZE / 2 ^ 11) (paid : 0 ≤ taken)
    (enough : taken + 2162 ≤ nCredit) :
    0 ≤ stakeShare n nCredit taken ∧ 0 ≤ lastStakeShare n nCredit taken := by
  have most : n ≤ 48 := few
  have quotient : (0 : Int) < n := by omega
  have share : stakeShare n nCredit taken = nCredit / n - taken / n := by
    rw [stakeShare, Int.tdiv_eq_ediv_of_nonneg (by omega), Int.tdiv_eq_ediv_of_nonneg paid]
  have nonneg : 0 ≤ stakeShare n nCredit taken := by
    have : taken / n ≤ nCredit / n := Int.ediv_le_ediv quotient (by omega)
    omega
  refine ⟨nonneg, ?_⟩
  -- All shares together exceed what is left by less than one unit for each of them.
  have rounding : stakeShare n nCredit taken * n ≤ nCredit - taken + (n - 1 : Nat) := by
    have credit : nCredit / n * n ≤ nCredit := Int.ediv_mul_le _ (by omega)
    have payment : taken < taken / n * n + n := Int.lt_ediv_add_one_mul_self _ quotient |>.trans_eq (by ring)
    rw [share, sub_mul]
    omega
  have all : stakeShare n nCredit taken * n =
      stakeShare n nCredit taken * (n - 1 : Nat) + stakeShare n nCredit taken := by
    rw [← mul_add_one]
    congr 1
    omega
  unfold lastStakeShare
  by_cases large : ((n - 1 : Nat) : Int) ≤ stakeShare n nCredit taken
  · omega
  · have small : stakeShare n nCredit taken * (n - 1 : Nat) ≤ 46 * 47 :=
      mul_le_mul (by omega) (by omega) (by omega) (by decide)
    omega

theorem stakeOutputs_values (scriptPubKey : CScript) :
    ((stakeOutputs scriptPubKey n nCredit taken).map CTxOut.nValue).sum = nCredit - taken := by
  simp only [stakeOutputs, List.map_append, List.map_replicate, List.map_singleton, List.sum_append, List.sum_replicate,
    List.sum_singleton, lastStakeShare, nsmul_eq_mul]
  ring

theorem StakeWallet.splitCount_bounds (w : StakeWallet) (nTotal : Int) :
    0 < w.splitCount nTotal ∧ w.splitCount nTotal ≤ MAX_STANDARD_TX_SIZE / 2 ^ 11 := by
  have most : MAX_STANDARD_TX_SIZE / 2 ^ 11 = 48 := by decide
  unfold splitCount
  split
  · simp only
    split <;> omega
  · omega

namespace TemplateState

variable (s : TemplateState)

def usedStake : List StakeTry → Option (StakeTry × CScript)
  | [] => none
  | stake :: rest =>
    if stake.stopped then none
    else if !stake.fKernelFound then usedStake rest
    else match s.wallet.stakeScript stake.out.scriptPubKey with
      | none => usedStake rest
      | some scriptPubKey => some (stake, scriptPubKey)

def stakeCredit (stake : StakeTry) : Int := stake.out.nValue + s.network.getBlockValue s.nHeight

def paidOutputs (stake : StakeTry) (scriptPubKey : CScript) : List CTxOut :=
  stakeOutputs scriptPubKey (s.wallet.splitCount (s.stakeCredit stake)) (s.stakeCredit stake)
      (s.payees.takenFromStake s.network s.nHeight scriptPubKey) ++
    (s.payees.payeeOutput s.network s.nHeight).toList

def coinStakeOf (stake : StakeTry) (scriptPubKey scriptSig : CScript) : CTransaction :=
  { hash := 0, vin := [{ prevout := stake.prevout, scriptSig }], vout := .empty :: s.paidOutputs stake scriptPubKey }

variable {txNew : CTransaction}

theorem coinStakeOutputs_eq {stake : StakeTry}
    (created : s.wallet.createTxOuts stake.out.scriptPubKey (s.stakeCredit stake) = some vout)
    (script : s.wallet.stakeScript stake.out.scriptPubKey = some scriptPubKey)
    (done : s.coinStakeOutputs stake vout = some txNew) :
    txNew = { hash := 0, vin := [], vout := .empty :: s.paidOutputs stake scriptPubKey } := by
  rw [StakeWallet.createTxOuts, script] at created
  obtain rfl := Option.some.inj created
  obtain ⟨positive, _⟩ := s.wallet.splitCount_bounds (s.stakeCredit stake)
  unfold coinStakeOutputs at done
  simp only at done
  split at done
  · cases done
  · obtain ⟨k, count⟩ : ∃ k, s.wallet.splitCount (s.stakeCredit stake) = k + 1 := ⟨_, (Nat.sub_add_cancel positive).symm⟩
    have outputs : ∃ first rest, shareCredit (s.stakeCredit stake)
        (List.replicate (s.wallet.splitCount (s.stakeCredit stake)) { nValue := 0, scriptPubKey }) = first :: rest ∧
          first.scriptPubKey = scriptPubKey := by
      rw [count, shareCredit, List.replicate_succ, List.mapIdx_cons]
      exact ⟨_, _, rfl, rfl⟩
    obtain ⟨first, rest, shares, same⟩ := outputs
    have filled := s.payees.fillBlockPayee_stake s.network s.nHeight
      { hash := 0, vin := [], vout := .empty :: first :: rest } rfl
    have made : s.payees.fillBlockPayee s.network s.nHeight
        { hash := 0, vin := [], vout := .empty :: first :: rest } true = some txNew := by
      rw [← shares]
      exact done
    rw [filled, same, ← shares, takeFromStake_shareCredit positive] at made
    exact (Option.some.inj made).symm

theorem coinStakeLoop_eq {stakes : List StakeTry} (done : s.coinStakeLoop fKernelFound stakes = some txNew) :
    txNew = { hash := 0, vin := [], vout := [.empty] } ∨
      ∃ stake scriptPubKey, s.usedStake stakes = some (stake, scriptPubKey) ∧ txNew = s.coinStakeOf stake scriptPubKey [] := by
  induction stakes generalizing fKernelFound with
  | nil =>
    rw [coinStakeLoop] at done
    split at done
    · exact Or.inl (Option.some.inj done).symm
    · cases done
  | cons stake rest ih =>
    rw [coinStakeLoop] at done
    rw [usedStake]
    split at done
    · cases done
    rename_i running
    rw [if_neg running]
    split at done
    · rename_i noKernel
      rw [if_pos noKernel]
      exact ih done
    rename_i kernel
    rw [if_neg kernel]
    cases script : s.wallet.stakeScript stake.out.scriptPubKey with
    | none =>
      rw [StakeWallet.createTxOuts, script] at done
      exact ih done
    | some scriptPubKey =>
      have created : s.wallet.createTxOuts stake.out.scriptPubKey (s.stakeCredit stake) =
          some (List.replicate (s.wallet.splitCount (s.stakeCredit stake)) { nValue := 0, scriptPubKey }) := by
        rw [StakeWallet.createTxOuts, script, Option.map_some]
      have turn := created
      unfold stakeCredit at turn
      rw [turn] at done
      obtain ⟨outputs, filled, rfl⟩ := Option.map_eq_some_iff.mp done
      rw [s.coinStakeOutputs_eq created script filled]
      exact Or.inr ⟨stake, scriptPubKey, rfl, rfl⟩

theorem createCoinStake_eq (done : s.createCoinStake = some txNew) :
    txNew = { hash := 0, vin := [], vout := [.empty] } ∨
      ∃ stake scriptPubKey scriptSig, s.usedStake s.stakes = some (stake, scriptPubKey) ∧
        s.wallet.signSignature (s.coinStakeOf stake scriptPubKey []) = some scriptSig ∧
        txNew = s.coinStakeOf stake scriptPubKey scriptSig := by
  obtain ⟨unsigned, made, signed⟩ := Option.bind_eq_some_iff.mp done
  rcases s.coinStakeLoop_eq made with rfl | ⟨stake, scriptPubKey, used, rfl⟩
  · exact Or.inl (Option.some.inj signed).symm
  · obtain ⟨scriptSig, signature, rfl⟩ := Option.map_eq_some_iff.mp signed
    exact Or.inr ⟨stake, scriptPubKey, scriptSig, used, signature, rfl⟩

end TemplateState

end SchillingCoin
