import Mathlib.Data.Int.ConditionallyCompleteOrder
import Mathlib.Order.ConditionallyCompleteLattice.Basic
import SchillingCoin.Lib.Best
import SchillingCoin.Masternode.BudgetRecords

/-!
The budget payment that a block producer inserts, after `CBudgetManager::FillBlockPayee`, against
`CBudgetManager::IsTransactionValid`.
-/

namespace SchillingCoin

namespace CBudgetManager

/-- The most votes of a budget with a payment for the height, and the payee and the amount of that payment. -/
def winningPayment (m : CBudgetManager) (nBlockHeight : Int) : Int × CScript × Int :=
  m.mapFinalizedBudgets.entries.foldl (fun best e =>
    if e.2.getVoteCount > best.1 ∧ e.2.covers nBlockHeight then
      match e.2.paymentAt nBlockHeight with
      | some payment => (e.2.getVoteCount, payment.payee, payment.nAmount)
      | none => best
    else best) (0, [], 0)

/-- `FillBlockPayee`. A coinbase without outputs is written out of range. -/
def fillBlockPayee (network : Network) (m : CBudgetManager) (tipHeight : Nat) (txNew : CTransaction) (fProofOfStake : Bool) :
    Option CTransaction :=
  let (nHighestCount, payee, nAmount) := m.winningPayment (tipHeight + 1)
  let blockValue := network.getBlockValue tipHeight
  if fProofOfStake then
    if nHighestCount > 0 then
      some { txNew with vout := txNew.vout ++ [{ nValue := nAmount, scriptPubKey := payee }] }
    else some txNew
  else match txNew.vout with
    | [] => none
    | first :: rest =>
      let first := { first with nValue := blockValue }
      if nHighestCount > 0 then
        some { txNew with vout := [first, { rest.head?.getD .null with nValue := nAmount, scriptPubKey := payee }] }
      else some { txNew with vout := first :: rest }

end CBudgetManager

namespace CBudgetManager

/-- Some budget of the list finds its payment made once, and no budget before it found the payment of the same
proposal made more than once. -/
def PaidOnce (nBlockHeight : Int) (vout : List CTxOut) (budgets : List CFinalizedBudget) : Prop :=
  ∃ before b after, budgets = before ++ b :: after ∧ b.timesPaidAt nBlockHeight vout = 1 ∧
    ∀ b' ∈ before, b'.proposalAt nBlockHeight = b.proposalAt nBlockHeight → b'.timesPaidAt nBlockHeight vout < 2

theorem checkBudgets_paidOnce_iff (budgets : List CFinalizedBudget) :
    (checkBudgets nCountThreshold txNew h budgets .inValid false ∅).1 = .valid ↔
      PaidOnce h txNew.vout (budgets.filter (considered nCountThreshold h)) := by
  rw [checkBudgets_valid_records budgets .inValid false ∅ (by decide)]
  have cover : ∀ c ∈ budgets.filter (considered nCountThreshold h), c.covers h = true := fun c => considered_covers
  generalize budgets.filter (considered nCountThreshold h) = budgets at cover
  have gone : ∀ {before b after}, budgets = before ++ b :: after → ∀ x,
      ((CFinalizedBudget.recordsAfter h txNew.vout x before ((∅ : StdMap uint256 Int).lookup x)).filter b.covers = none ↔
        ∀ c ∈ before, c.proposalAt h = some x → c.timesPaidAt h txNew.vout = 0) := by
    rintro before b after rfl x
    exact CFinalizedBudget.filter_records_iff (fun c member => cover c (List.mem_append_left _ member)) (cover b (by simp))
  constructor
  · rintro ⟨before, b, after, split_, once, x, own, unrecorded⟩
    refine ⟨before, b, after, split_, once, fun b' earlier same => ?_⟩
    rw [(gone split_ x).mp unrecorded b' earlier (same.trans own)]
    exact Nat.zero_lt_two
  · rintro ⟨before, b, after, split_, once, single⟩
    -- the first budget of the proposal that finds a payment has nothing on record before it
    have finds : ((before ++ [b]).find? fun c => decide (c.proposalAt h = b.proposalAt h ∧ c.timesPaidAt h txNew.vout ≠ 0)).isSome :=
      List.find?_isSome.mpr ⟨b, by simp, by simp [once]⟩
    obtain ⟨c, found⟩ := Option.isSome_iff_exists.mp finds
    obtain ⟨passes, before', after', parts, earlier⟩ := List.find?_eq_some_iff_append.mp found
    simp only [decide_eq_true_eq] at passes
    have parts' : budgets = before' ++ c :: (after' ++ after) := by
      rw [split_, List.append_cons, parts, List.append_assoc, List.cons_append]
    have single' : c.timesPaidAt h txNew.vout = 1 := by
      rcases List.mem_append.mp (parts ▸ List.mem_append_right before' List.mem_cons_self) with inside | last
      · have few := single c inside passes.1
        omega
      · rw [List.mem_singleton.mp last, once]
    obtain ⟨payment, scheduled⟩ := CFinalizedBudget.paymentAt_of_covers (cover c (by simp [parts']))
    have own : c.proposalAt h = some payment.nProposalHash := by rw [CFinalizedBudget.proposalAt, scheduled, Option.map_some]
    refine ⟨before', c, after' ++ after, parts', single', _, own, (gone parts' _).mpr fun d member same => ?_⟩
    have absent := earlier d member
    rw [Bool.not_eq_true', decide_eq_false_iff_not, not_and, not_not] at absent
    exact absent (same.trans (own.symm.trans passes.1))

section Winner

variable (m : CBudgetManager) (h : Int)

def Known (b : CFinalizedBudget) : Prop := b ∈ m.mapFinalizedBudgets.entries.map Sigma.snd

theorem highestCount_keeps : Best.Keeps (fun e : (_ : uint256) × CFinalizedBudget => e.2.covers h = true)
    (fun e => e.2.getVoteCount) (fun e => e.2.getVoteCount) id (fun nHighestCount e =>
      if e.2.getVoteCount > nHighestCount ∧ e.2.covers h then e.2.getVoteCount else nHighestCount) := by
  intro best e
  by_cases more : e.2.getVoteCount > best ∧ e.2.covers h = true
  · exact Or.inl ⟨more.2, Int.le_of_lt more.1, if_pos more⟩
  · refine Or.inr ⟨fun covers => ?_, if_neg more⟩
    by_contra less
    exact more ⟨not_le.mp less, covers⟩

theorem winningPayment_keeps : Best.Keeps (fun e : (_ : uint256) × CFinalizedBudget => e.2.covers h = true)
    (fun e => e.2.getVoteCount)
    (fun e => (e.2.getVoteCount, ((e.2.paymentAt h).map CTxBudgetPayment.payee).getD [],
      ((e.2.paymentAt h).map CTxBudgetPayment.nAmount).getD 0)) (fun best : Int × CScript × Int => best.1)
    (fun best e => if e.2.getVoteCount > best.1 ∧ e.2.covers h then
      match e.2.paymentAt h with
      | some payment => (e.2.getVoteCount, payment.payee, payment.nAmount)
      | none => best
    else best) := by
  intro best e
  by_cases more : e.2.getVoteCount > best.1 ∧ e.2.covers h = true
  · obtain ⟨payment, scheduled⟩ := CFinalizedBudget.paymentAt_of_covers more.2
    refine Or.inl ⟨more.2, Int.le_of_lt more.1, ?_⟩
    simp only [if_pos more, scheduled]
    rfl
  · refine Or.inr ⟨fun covers => ?_, if_neg more⟩
    by_contra less
    exact more ⟨not_le.mp less, covers⟩

variable {m h}

theorem votes_le_highestCount (least : Int) (known : m.Known b) (covers : b.covers h = true) :
    b.getVoteCount ≤ m.highestCount h least := by
  obtain ⟨e, member, rfl⟩ := List.mem_map.mp known
  exact (highestCount_keeps h).le (fun _ => rfl) least member covers

theorem highestCount_attained (below : least < m.highestCount h least) :
    ∃ b, m.Known b ∧ b.covers h = true ∧ b.getVoteCount = m.highestCount h least := by
  rcases (highestCount_keeps h).source m.mapFinalizedBudgets.entries least with same | ⟨e, member, covers, same⟩
  · unfold highestCount at below
    omega
  · exact ⟨e.2, List.mem_map_of_mem member, covers, same.symm⟩

theorem winningPayment_spec (due : m.isBudgetPaymentBlock h = true) :
    ∃ b payment, m.Known b ∧ b.covers h = true ∧ b.getVoteCount = m.highestCount h 0 ∧ 0 < m.highestCount h 0 ∧
      ((m.countEnabled / 20 : Nat) : Int) < m.highestCount h 0 ∧ b.paymentAt h = some payment ∧
      m.winningPayment h = (m.highestCount h 0, payment.payee, payment.nAmount) := by
  -- The three searches find the same count.
  have enough : ((m.countEnabled / 20 : Nat) : Int) < m.highestCount h (-1) := by
    simpa [isBudgetPaymentBlock] using due
  obtain ⟨top, topKnown, topCovers, topVotes⟩ := highestCount_attained (m := m) (h := h) (show -1 < m.highestCount h (-1) by omega)
  have upper := votes_le_highestCount (m := m) 0 topKnown topCovers
  have positive : 0 < m.highestCount h 0 := by omega
  obtain ⟨second, secondKnown, secondCovers, secondVotes⟩ := highestCount_attained (m := m) (h := h) positive
  have reached : m.highestCount h 0 ≤ (m.winningPayment h).1 := by
    obtain ⟨e, member, rfl⟩ := List.mem_map.mp secondKnown
    rw [← secondVotes]
    exact (winningPayment_keeps h).le (fun _ => rfl) (0, [], 0) member secondCovers
  rcases (winningPayment_keeps h).source m.mapFinalizedBudgets.entries (0, [], 0) with same | ⟨e, member, covers, same⟩
  · have zero : (m.winningPayment h).1 = 0 := congrArg Prod.fst same
    omega
  · obtain ⟨payment, scheduled⟩ := CFinalizedBudget.paymentAt_of_covers covers
    have known : m.Known e.2 := List.mem_map_of_mem member
    have bound := votes_le_highestCount 0 known covers
    have votes : (m.winningPayment h).1 = e.2.getVoteCount := congrArg Prod.fst same
    have equal : e.2.getVoteCount = m.highestCount h 0 := by omega
    refine ⟨e.2, payment, known, covers, equal, positive, by omega, scheduled, ?_⟩
    have all_ : m.winningPayment h = (e.2.getVoteCount, ((e.2.paymentAt h).map CTxBudgetPayment.payee).getD [],
        ((e.2.paymentAt h).map CTxBudgetPayment.nAmount).getD 0) := same
    rw [all_, scheduled, equal]
    rfl

end Winner

def keptOutputs (network : Network) (tipHeight : Nat) (txNew : CTransaction) (fProofOfStake : Bool) : List CTxOut :=
  if fProofOfStake then txNew.vout else (txNew.vout.take 1).map fun o => { o with nValue := network.getBlockValue tipHeight }

def insertedPayment (m : CBudgetManager) (nBlockHeight : Int) : CTxOut :=
  { nValue := (m.winningPayment nBlockHeight).2.2, scriptPubKey := (m.winningPayment nBlockHeight).2.1 }

/-- The budgets whose votes exceed the highest count less a tenth of the masternodes, in the order of the map. -/
def closeBudgets (m : CBudgetManager) (nBlockHeight : Int) : List CFinalizedBudget :=
  (m.mapFinalizedBudgets.entries.map Sigma.snd).filter
    (considered (m.highestCount nBlockHeight 0 - (m.countEnabled / 10 : Nat)) nBlockHeight)

theorem fillBlockPayee_counts {m : CBudgetManager} {tipHeight : Nat} (wins : 0 < (m.winningPayment (tipHeight + 1)).1)
    (filled : m.fillBlockPayee network tipHeight txNew fProofOfStake = some txFilled) (b : CFinalizedBudget) (h : Int) :
    b.timesPaidAt h txFilled.vout =
      b.timesPaidAt h (keptOutputs network tipHeight txNew fProofOfStake ++ [m.insertedPayment (tipHeight + 1)]) := by
  unfold fillBlockPayee at filled
  simp only [gt_iff_lt, wins, if_true] at filled
  cases fProofOfStake with
  | true =>
    obtain rfl := Option.some.inj filled
    rfl
  | false =>
    simp only [Bool.false_eq_true, if_false] at filled
    split at filled
    · cases filled
    · rename_i first rest outputs
      obtain rfl := Option.some.inj filled
      simp only [keptOutputs, Bool.false_eq_true, if_false, outputs, List.take_succ_cons, List.take_zero, List.map_cons,
        List.map_nil, List.singleton_append]
      unfold CFinalizedBudget.timesPaidAt CTxBudgetPayment.timesPaid
      cases b.paymentAt h with
      | none => rfl
      | some payment =>
        simp only [Option.elim_some, List.countP_cons, List.countP_nil]
        rfl

/-- Where no payment is on record, the transaction that a producer fills for a budget block passes the validator
exactly when ten masternodes are enabled and a budget that is close to the highest count finds its payment once. -/
theorem filled_budget_payment_valid_iff (network : Network) (m : CBudgetManager) (tipHeight : Nat) (txNew txFilled : CTransaction)
    (fProofOfStake : Bool) (unpaid : m.mapPaymentHistory = ∅) (due : m.isBudgetPaymentBlock (tipHeight + 1) = true)
    (filled : m.fillBlockPayee network tipHeight txNew fProofOfStake = some txFilled) :
    ((m.isTransactionValid txFilled (tipHeight + 1)).1 = .valid ↔
      10 ≤ m.countEnabled ∧ PaidOnce (tipHeight + 1)
        (keptOutputs network tipHeight txNew fProofOfStake ++ [m.insertedPayment (tipHeight + 1)])
        (m.closeBudgets (tipHeight + 1))) ∧
    ((∀ o ∈ keptOutputs network tipHeight txNew fProofOfStake, ∀ b, m.Known b → ∀ payment,
        b.paymentAt (tipHeight + 1) = some payment → ¬(payment.payee = o.scriptPubKey ∧ payment.nAmount = o.nValue)) →
      ((m.isTransactionValid txFilled (tipHeight + 1)).1 = .valid ↔ 10 ≤ m.countEnabled)) := by
  obtain ⟨winner, payment, known, covers, votes, positive, enough, scheduled, wins⟩ := winningPayment_spec due
  have counts := fillBlockPayee_counts (by rw [wins]; exact positive) filled
  have valid : (m.isTransactionValid txFilled (tipHeight + 1)).1 = .valid ↔ PaidOnce (tipHeight + 1)
      (keptOutputs network tipHeight txNew fProofOfStake ++ [m.insertedPayment (tipHeight + 1)]) (m.closeBudgets (tipHeight + 1)) := by
    unfold isTransactionValid
    simp only
    rw [if_neg (by omega), unpaid, checkBudgets_paidOnce_iff]
    simp only [PaidOnce, ← counts]
    rfl
  have ten : PaidOnce (tipHeight + 1) (keptOutputs network tipHeight txNew fProofOfStake ++ [m.insertedPayment (tipHeight + 1)])
      (m.closeBudgets (tipHeight + 1)) → 10 ≤ m.countEnabled := by
    rintro ⟨before, b, after, split_, _⟩
    have member : b ∈ m.closeBudgets (tipHeight + 1) := by
      rw [split_]
      simp
    obtain ⟨listed, close⟩ := List.mem_filter.mp member
    simp only [considered, Bool.and_eq_true, decide_eq_true_eq] at close
    have bound := votes_le_highestCount 0 listed close.2
    omega
  refine ⟨valid.trans ⟨fun once => ⟨ten once, once⟩, And.right⟩, fun clean => valid.trans ⟨ten, fun many => ?_⟩⟩
  -- Every budget finds its payment at most once, in the output that was inserted.
  have single : ∀ b, m.Known b → b.timesPaidAt (tipHeight + 1)
      (keptOutputs network tipHeight txNew fProofOfStake ++ [m.insertedPayment (tipHeight + 1)]) =
        b.timesPaidAt (tipHeight + 1) [m.insertedPayment (tipHeight + 1)] := by
    intro b listed
    unfold CFinalizedBudget.timesPaidAt CTxBudgetPayment.timesPaid
    cases at_ : b.paymentAt (tipHeight + 1) with
    | none => rfl
    | some other =>
      rw [Option.elim_some, Option.elim_some, List.countP_append, Nat.add_eq_right, List.countP_eq_zero]
      intro o kept
      simpa using clean o kept b listed other at_
  have close : winner ∈ m.closeBudgets (tipHeight + 1) := by
    refine List.mem_filter.mpr ⟨known, ?_⟩
    simp only [considered, Bool.and_eq_true, decide_eq_true_eq]
    exact ⟨by omega, covers⟩
  obtain ⟨before, after, split_⟩ := List.append_of_mem close
  refine ⟨before, winner, after, split_, ?_, fun b earlier _ => ?_⟩
  · rw [single winner known]
    simp [CFinalizedBudget.timesPaidAt, scheduled, CTxBudgetPayment.timesPaid, insertedPayment, wins]
  · have listed : m.Known b := by
      have member : b ∈ m.closeBudgets (tipHeight + 1) := by
        rw [split_]
        simp [earlier]
      exact (List.mem_filter.mp member).1
    rw [single b listed]
    unfold CFinalizedBudget.timesPaidAt CTxBudgetPayment.timesPaid
    cases b.paymentAt (tipHeight + 1) with
    | none => exact Nat.zero_lt_two
    | some other =>
      have bound := List.countP_le_length (p := fun out : CTxOut => other.payee == out.scriptPubKey && other.nAmount == out.nValue)
        (l := [m.insertedPayment (tipHeight + 1)])
      rw [List.length_singleton] at bound
      rw [Option.elim_some]
      omega

def votedBudget (nBlockStart : Int) : CFinalizedBudget :=
  { nBlockStart, vecBudgetPayments := [⟨9, [0x51], 500000000⟩]
    mapVotes := (∅ : StdMap uint256 CFinalizedBudgetVote).insert 7 { vin := { prevout := ⟨7, 0⟩ }, nBudgetHash := 1, nTime := 0 } }

def oneBudget (nBlockStart : Int) (countEnabled : Nat) : CBudgetManager :=
  { mapFinalizedBudgets := (∅ : StdMap uint256 CFinalizedBudget).insert 1 (votedBudget nBlockStart), countEnabled }

def budgetStake : CTransaction :=
  { hash := 7, vin := [{ prevout := ⟨1, 0⟩ }],
    vout := [{ nValue := 0, scriptPubKey := [] }, { nValue := 100, scriptPubKey := [0x52] }] }

theorem payment_with_ten_masternodes_valid :
    (oneBudget 301 10).isBudgetPaymentBlock 301 = true ∧
      ∃ txFilled, (oneBudget 301 10).fillBlockPayee .main 300 budgetStake true = some txFilled ∧
        ((oneBudget 301 10).isTransactionValid txFilled 301).1 = .valid := by
  refine ⟨by decide, _, rfl, ?_⟩
  refine ((filled_budget_payment_valid_iff .main (oneBudget 301 10) 300 budgetStake _ true rfl (by decide) rfl).2 ?_).mpr (by decide)
  intro o kept b known payment scheduled
  obtain rfl : b = votedBudget 301 := by simpa [Known, oneBudget] using known
  obtain rfl : payment = ⟨9, [0x51], 500000000⟩ := (Option.some.inj scheduled).symm
  have outputs : ∀ o ∈ keptOutputs .main 300 budgetStake true, ¬([0x51] = o.scriptPubKey ∧ (500000000 : Int) = o.nValue) := by
    decide
  exact outputs o kept

/-- Among nine masternodes the highest count is not above itself, and the payment is not accepted. -/
theorem payment_with_nine_masternodes_refused :
    (oneBudget 301 9).isBudgetPaymentBlock 301 = true ∧
      (oneBudget 301 9).fillBlockPayee .main 300 budgetStake true =
        some { budgetStake with vout := budgetStake.vout ++ [{ nValue := 500000000, scriptPubKey := [0x51] }] } ∧
      ((oneBudget 301 9).isTransactionValid
        { budgetStake with vout := budgetStake.vout ++ [{ nValue := 500000000, scriptPubKey := [0x51] }] } 301).1 =
        .voteThreshold := by
  decide

end CBudgetManager

end SchillingCoin
