import Mathlib.Algebra.Order.BigOperators.Group.List
import SchillingCoin.Masternode.BudgetVotes

/-!
What a finalized budget pays in all, after `CFinalizedBudget::GetTotalPayout` and `CFinalizedBudget::IsValid`.
-/

namespace SchillingCoin

namespace CFinalizedBudget

def exactPayout (b : CFinalizedBudget) : Int := (b.vecBudgetPayments.map CTxBudgetPayment.nAmount).sum

def NonNegative (b : CFinalizedBudget) : Prop := ∀ payment ∈ b.vecBudgetPayments, 0 ≤ payment.nAmount

def WithinBudget (ctx : BudgetContext) (b : CFinalizedBudget) : Prop :=
  b.NonNegative ∧ b.exactPayout ≤ ctx.getTotalBudget b.nBlockStart

theorem foldl_int64 (payments : List CTxBudgetPayment) (fits : int64 ret = ret) :
    payments.foldl (fun ret payment => int64 (ret + payment.nAmount)) ret =
      int64 (ret + (payments.map CTxBudgetPayment.nAmount).sum) := by
  induction payments generalizing ret with
  | nil =>
    rw [List.foldl_nil, List.map_nil, List.sum_nil, Int.add_zero]
    exact fits.symm
  | cons payment payments ih =>
    have wrapped : int64 (int64 (ret + payment.nAmount)) = int64 (ret + payment.nAmount) := Int.bmod_bmod
    rw [List.foldl_cons, ih wrapped, List.map_cons, List.sum_cons, ← Int.add_assoc]
    exact Int.bmod_add_bmod

theorem getTotalPayout_eq (b : CFinalizedBudget) : b.getTotalPayout = int64 b.exactPayout := by
  unfold getTotalPayout exactPayout
  rw [foldl_int64 b.vecBudgetPayments (by rfl), Int.zero_add]

theorem NonNegative.exactPayout_nonneg {b : CFinalizedBudget} (nonNegative : b.NonNegative) : 0 ≤ b.exactPayout := by
  unfold exactPayout
  apply List.sum_nonneg
  intro amount member
  obtain ⟨payment, listed, rfl⟩ := List.mem_map.mp member
  exact nonNegative payment listed

theorem getTotalBudget_lt (ctx : BudgetContext) (nHeight : Int) : ctx.getTotalBudget nHeight < 2 ^ 63 := by
  unfold BudgetContext.getTotalBudget
  split
  · decide
  · split <;> decide

theorem payout_le_of_valid {b : CFinalizedBudget} (valid : (b.isValid hashes ctx).1 = true) :
    b.getTotalPayout ≤ ctx.getTotalBudget b.nBlockStart := by
  by_contra more
  unfold isValid at valid
  simp only [gt_iff_lt, not_le.mp more, if_true] at valid
  repeat' split at valid
  all_goals cases valid

/-- A finalized budget that passes its check stays within the budget exactly when it has no negative amount and its
amounts add up in 64 bits. -/
theorem valid_budget_within_iff (hashes : BudgetHashes) (ctx : BudgetContext) (b : CFinalizedBudget)
    (valid : (b.isValid hashes ctx).1 = true) : b.WithinBudget ctx ↔ b.NonNegative ∧ b.exactPayout < 2 ^ 63 := by
  refine and_congr_right fun nonNegative => ⟨fun within => ?_, fun fits => ?_⟩
  · have limit := getTotalBudget_lt ctx b.nBlockStart
    omega
  · have lower := nonNegative.exactPayout_nonneg
    have exact_ : b.getTotalPayout = b.exactPayout := by
      rw [getTotalPayout_eq]
      exact Int.bmod_eq_of_le (by omega) (by omega)
    rw [← exact_]
    exact payout_le_of_valid valid

def finalizedContext (network : Network) : BudgetContext :=
  { CBudgetManager.feeContext with
    network := network
    getTransaction := fun _ =>
      some ({ hash := 9, vin := [], vout := [{ nValue := BUDGET_FEE_TX, scriptPubKey := BudgetContext.findScript 8 }] }, 1) }

def budgetOf (amounts : List Int) : CFinalizedBudget where
  strBudgetName := "main"
  nBlockStart := 43200
  vecBudgetPayments := amounts.map fun nAmount => ⟨9, [0x51], nAmount⟩
  nFeeTXHash := 9

theorem small_budget_within : (budgetOf [500 * COIN, 20 * COIN]).WithinBudget (finalizedContext .testnet) := by
  refine (valid_budget_within_iff CBudgetManager.plainHashes (finalizedContext .testnet) _ (by decide)).mpr ⟨?_, by decide⟩
  unfold NonNegative
  decide

/-- The main network has no budget, and still a thousand coins are paid; and four amounts of `2 ^ 62` add up to nothing. -/
theorem negative_amount_hides_payment :
    ((budgetOf [1000 * COIN, -1000 * COIN]).isValid CBudgetManager.plainHashes (finalizedContext .main)).1 = true ∧
      ¬(budgetOf [1000 * COIN, -1000 * COIN]).WithinBudget (finalizedContext .main) ∧
      ((budgetOf (List.replicate 4 (2 ^ 62))).isValid CBudgetManager.plainHashes (finalizedContext .main)).1 = true ∧
      ¬(budgetOf (List.replicate 4 (2 ^ 62))).WithinBudget (finalizedContext .main) := by
  unfold WithinBudget NonNegative
  decide

end CFinalizedBudget

end SchillingCoin
