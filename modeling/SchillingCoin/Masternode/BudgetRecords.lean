import Mathlib.Data.Int.Order.Basic
import Mathlib.Data.List.Induction
import SchillingCoin.Masternode.Budget

/-!
The payments on record, after `CFinalizedBudget::IsPaidAlready`.
-/

namespace SchillingCoin

namespace CTxBudgetPayment

def timesPaid (payment : CTxBudgetPayment) (vout : List CTxOut) : Nat :=
  vout.countP fun out => payment.payee == out.scriptPubKey && payment.nAmount == out.nValue

end CTxBudgetPayment

namespace CFinalizedBudget

variable (b : CFinalizedBudget) (nBlockHeight : Int) (vout : List CTxOut)

def timesPaidAt : Nat :=
  (b.paymentAt nBlockHeight).elim 0 fun payment => payment.timesPaid vout

def proposalAt : Option uint256 :=
  (b.paymentAt nBlockHeight).map CTxBudgetPayment.nProposalHash

theorem paymentAt_of_covers {b : CFinalizedBudget} (covers : b.covers h = true) : ∃ payment, b.paymentAt h = some payment := by
  simp only [CFinalizedBudget.covers, Bool.and_eq_true, decide_eq_true_eq] at covers
  unfold getBlockEnd getBlockStart at covers
  have inside : (h - b.nBlockStart).toNat < b.vecBudgetPayments.length := by omega
  refine ⟨b.vecBudgetPayments[(h - b.nBlockStart).toNat], ?_⟩
  rw [paymentAt, getBlockStart, if_neg (by omega)]
  exact List.getElem?_eq_getElem inside

def recordAfter (x : uint256) (paid : Option Int) (b : CFinalizedBudget) : Option Int :=
  if b.timesPaidAt nBlockHeight vout = 0 then paid
  else if b.proposalAt nBlockHeight = some x ∧ paid.filter b.covers = none then some nBlockHeight
  else paid.filter b.covers

section OneBudget

variable {b : CFinalizedBudget} {h : Int}

theorem isPaidAlready_records (b : CFinalizedBudget) (h : Int) (history : StdMap uint256 Int) (proposal : uint256) :
    (b.isPaidAlready history proposal h).1 = ((history.lookup proposal).filter b.covers).isSome ∧
      ∀ x, (b.isPaidAlready history proposal h).2.lookup x =
        if proposal = x ∧ (history.lookup x).filter b.covers = none then some h else (history.lookup x).filter b.covers := by
  have inRange : ∀ v : Int, (!(decide (v < b.getBlockStart) || decide (v > b.getBlockEnd))) = b.covers v := by
    intro v
    rw [Bool.eq_iff_iff]
    simp only [CFinalizedBudget.covers, Bool.not_eq_true', Bool.or_eq_false_iff, decide_eq_false_iff_not, Bool.and_eq_true, decide_eq_true_eq]
    omega
  have kept : ∀ x, (StdMap.filter (fun _ nPaidBlockHeight =>
      !(decide (nPaidBlockHeight < b.getBlockStart) || decide (nPaidBlockHeight > b.getBlockEnd))) history).lookup x =
        (history.lookup x).filter b.covers := by
    intro x
    rw [StdMap.lookup_filter]
    exact congrArg (fun p => (history.lookup x).filter p) (funext inRange)
  unfold isPaidAlready
  simp only [kept]
  cases found : (history.lookup proposal).filter b.covers with
  | none =>
    refine ⟨rfl, fun x => ?_⟩
    simp only [Option.isNone_none, if_true, StdMap.lookup_insert_ite, kept]
    by_cases own : proposal = x
    · subst own
      simp [found]
    · simp [own, Ne.symm own]
  | some paid =>
    refine ⟨rfl, fun x => ?_⟩
    simp only [Option.isNone_some, Bool.false_eq_true, if_false, kept]
    rw [if_neg]
    rintro ⟨rfl, absent⟩
    cases found.symm.trans absent

theorem checkOutputs_records (covers : b.covers h = true) (payment : CTxBudgetPayment) (vout : List CTxOut)
    (status : TrxValidationStatus) (history : StdMap uint256 Int) :
    (b.checkOutputs payment h vout status history).1 =
        (if payment.timesPaid vout = 0 then status
        else if ((history.lookup payment.nProposalHash).filter b.covers).isSome then .doublePayment
        else if payment.timesPaid vout = 1 then .valid else .doublePayment) ∧
      ∀ x, (b.checkOutputs payment h vout status history).2.lookup x =
        if payment.timesPaid vout = 0 then history.lookup x
        else if payment.nProposalHash = x ∧ (history.lookup x).filter b.covers = none then some h
        else (history.lookup x).filter b.covers := by
  induction vout generalizing status history with
  | nil => exact ⟨rfl, fun x => rfl⟩
  | cons out outs ih =>
    by_cases pays : payment.payee = out.scriptPubKey ∧ payment.nAmount = out.nValue
    · have count : payment.timesPaid (out :: outs) = payment.timesPaid outs + 1 := by
        simp [CTxBudgetPayment.timesPaid, pays]
      obtain ⟨already, after⟩ := isPaidAlready_records b h history payment.nProposalHash
      rw [checkOutputs, if_pos pays, count]
      simp only [already, Nat.add_eq_zero_iff, Nat.one_ne_zero, and_false, if_false]
      cases found : (history.lookup payment.nProposalHash).filter b.covers with
      | some paid => exact ⟨rfl, after⟩
      | none =>
        simp only [Option.isSome_none, Bool.false_eq_true, if_false]
        obtain ⟨statusRest, recordedRest⟩ := ih .valid (b.isPaidAlready history payment.nProposalHash h).2
        have own : (b.isPaidAlready history payment.nProposalHash h).2.lookup payment.nProposalHash = some h := by
          rw [after, if_pos ⟨rfl, found⟩]
        refine ⟨?_, fun x => ?_⟩
        · rw [statusRest, own, Option.filter_some, if_pos covers]
          by_cases unpaid : payment.timesPaid outs = 0
          · simp [unpaid]
          · simp [unpaid]
        · rw [recordedRest, after]
          by_cases unpaid : payment.timesPaid outs = 0
          · rw [if_pos unpaid]
          · rw [if_neg unpaid]
            by_cases fresh : payment.nProposalHash = x ∧ (history.lookup x).filter b.covers = none
            · rw [if_pos fresh, Option.filter_some, if_pos covers, if_neg (by simp)]
            · rw [if_neg fresh, Option.filter_filter]
              simp only [Bool.and_self]
              exact if_neg fresh
    · have count : payment.timesPaid (out :: outs) = payment.timesPaid outs := by
        unfold CTxBudgetPayment.timesPaid
        rw [List.countP_cons_of_neg]
        simpa using pays
      rw [checkOutputs, if_neg pays, count]
      exact ih status history

theorem isTransactionValid_records (covers : b.covers h = true) (txNew : CTransaction) (history : StdMap uint256 Int) :
    ((b.isTransactionValid history txNew h).1 = .valid ↔
      b.timesPaidAt h txNew.vout = 1 ∧ ∃ x, b.proposalAt h = some x ∧ (history.lookup x).filter b.covers = none) ∧
    ((b.isTransactionValid history txNew h).1 ≠ .valid →
      (b.isTransactionValid history txNew h).1 = if b.timesPaidAt h txNew.vout = 0 then .inValid else .doublePayment) ∧
    ∀ x, (b.isTransactionValid history txNew h).2.lookup x = b.recordAfter h txNew.vout x (history.lookup x) := by
  obtain ⟨payment, scheduled⟩ := paymentAt_of_covers covers
  obtain ⟨status, recorded⟩ := checkOutputs_records covers payment txNew.vout .inValid history
  have unfolded : b.isTransactionValid history txNew h = b.checkOutputs payment h txNew.vout .inValid history := by
    rw [isTransactionValid, scheduled]
  have times : b.timesPaidAt h txNew.vout = payment.timesPaid txNew.vout := by
    rw [timesPaidAt, scheduled]
    rfl
  have proposal : b.proposalAt h = some payment.nProposalHash := by
    rw [proposalAt, scheduled]
    rfl
  rw [unfolded, times, proposal, status]
  refine ⟨?_, ?_, fun x => ?_⟩
  · by_cases unpaid : payment.timesPaid txNew.vout = 0
    · simp [unpaid]
    · rw [if_neg unpaid]
      simp only [Option.some.injEq, exists_eq_left']
      generalize (history.lookup payment.nProposalHash).filter b.covers = paid
      cases paid with
      | some v => simp
      | none =>
        by_cases once : payment.timesPaid txNew.vout = 1
        · simp [once]
        · simp [once]
  · intro refused
    by_cases unpaid : payment.timesPaid txNew.vout = 0
    · rw [if_pos unpaid, if_pos unpaid]
    · rw [if_neg unpaid] at refused ⊢
      rw [if_neg unpaid]
      split
      · rfl
      · next absent =>
        rw [if_neg absent] at refused
        split
        · next once => exact absurd (if_pos once) refused
        · rfl
  · rw [recorded]
    unfold recordAfter
    rw [times, proposal]
    simp only [Option.some.injEq]

end OneBudget

def recordsAfter (x : uint256) (budgets : List CFinalizedBudget) (paid : Option Int) : Option Int :=
  budgets.foldl (recordAfter nBlockHeight vout x) paid

section Budgets

variable {h : Int} {vout : List CTxOut} {x : uint256}

theorem recordAfter_here {b : CFinalizedBudget} (covers : b.covers h = true) : recordAfter h vout x (some h) b = some h := by
  unfold recordAfter
  rw [Option.filter_some, if_pos covers, if_neg (c := b.proposalAt h = some x ∧ some h = none) (by simp), ite_self]

theorem recordsAfter_snoc (budgets : List CFinalizedBudget) (b : CFinalizedBudget) (paid : Option Int) :
    recordsAfter h vout x (budgets ++ [b]) paid = recordAfter h vout x (recordsAfter h vout x budgets paid) b := by
  rw [recordsAfter, List.foldl_append, List.foldl_cons, List.foldl_nil, recordsAfter]

variable {budgets : List CFinalizedBudget}

theorem recordsAfter_some (after : recordsAfter h vout x budgets paid = some v) :
    v = h ∨ (paid = some v ∧ ∀ c ∈ budgets, c.timesPaidAt h vout ≠ 0 → c.covers v = true) := by
  induction budgets using List.reverseRecOn generalizing v with
  | nil => exact Or.inr ⟨after, fun c impossible => by cases impossible⟩
  | append_singleton budgets b ih =>
    rw [recordsAfter_snoc] at after
    unfold recordAfter at after
    split at after
    · next unpaid =>
      rcases ih after with here | ⟨before, kept⟩
      · exact Or.inl here
      · refine Or.inr ⟨before, fun c member found => ?_⟩
        rcases List.mem_append.mp member with earlier | last
        · exact kept c earlier found
        · obtain rfl := List.mem_singleton.mp last
          exact absurd unpaid found
    · split at after
      · exact Or.inl (Option.some.inj after).symm
      · obtain ⟨same, covered⟩ := Option.filter_eq_some_iff.mp after
        rcases ih same with here | ⟨before, kept⟩
        · exact Or.inl here
        · refine Or.inr ⟨before, fun c member found => ?_⟩
          rcases List.mem_append.mp member with earlier | last
          · exact kept c earlier found
          · obtain rfl := List.mem_singleton.mp last
            exact covered

/-- Where nothing is on record, there was nothing, or a budget has forgotten it; and no budget since then found a payment
of the proposal. -/
theorem recordsAfter_none (cover : ∀ c ∈ budgets, c.covers h = true) (after : recordsAfter h vout x budgets paid = none) :
    ∃ early late, budgets = early ++ late ∧ (∀ c ∈ late, c.proposalAt h = some x → c.timesPaidAt h vout = 0) ∧
      ((paid = none ∧ early = []) ∨ ∃ v, paid = some v ∧ (∀ c ∈ early, c.timesPaidAt h vout ≠ 0 → c.covers v = true) ∧
        ∃ c ∈ late, c.timesPaidAt h vout ≠ 0 ∧ c.covers v = false) := by
  induction budgets using List.reverseRecOn with
  | nil => exact ⟨[], [], rfl, (fun c impossible => by cases impossible), Or.inl ⟨after, rfl⟩⟩
  | append_singleton budgets b ih =>
    have coverBefore : ∀ c ∈ budgets, c.covers h = true := fun c member => cover c (List.mem_append_left _ member)
    have bCovers : b.covers h = true := cover b (List.mem_append_right _ List.mem_cons_self)
    rw [recordsAfter_snoc] at after
    -- `b` records nothing of the proposal, so it joins the budgets since the record was forgotten
    have silent : recordsAfter h vout x budgets paid = none → (b.proposalAt h = some x → b.timesPaidAt h vout = 0) →
        ∃ early late, budgets ++ [b] = early ++ late ∧ (∀ c ∈ late, c.proposalAt h = some x → c.timesPaidAt h vout = 0) ∧
          ((paid = none ∧ early = []) ∨ ∃ v, paid = some v ∧ (∀ c ∈ early, c.timesPaidAt h vout ≠ 0 → c.covers v = true) ∧
            ∃ c ∈ late, c.timesPaidAt h vout ≠ 0 ∧ c.covers v = false) := by
      intro none_ other
      obtain ⟨early, late, rfl, unpaid, forgotten⟩ := ih coverBefore none_
      refine ⟨early, late ++ [b], List.append_assoc early late [b], fun c member => ?_, ?_⟩
      · rcases List.mem_append.mp member with before | last
        · exact unpaid c before
        · obtain rfl := List.mem_singleton.mp last
          exact other
      · rcases forgotten with fresh | ⟨v, was, kept, c, member, drops⟩
        · exact Or.inl fresh
        · exact Or.inr ⟨v, was, kept, c, List.mem_append_left _ member, drops⟩
    unfold recordAfter at after
    split at after
    · next unpaid => exact silent after fun _ => unpaid
    · next found =>
      split at after
      · cases after
      · next unrecorded =>
        have other : b.proposalAt h = some x → b.timesPaidAt h vout = 0 := fun own => absurd ⟨own, after⟩ unrecorded
        cases before : recordsAfter h vout x budgets paid with
        | none => exact silent before other
        | some v =>
          have dropped : b.covers v = false := by
            rw [before, Option.filter_some] at after
            split at after
            · cases after
            · next outside => exact Bool.not_eq_true _ ▸ outside
          rcases recordsAfter_some before with rfl | ⟨was, kept⟩
          · cases bCovers.symm.trans dropped
          · refine ⟨budgets, [b], rfl, fun c member => ?_, Or.inr ⟨v, was, kept, b, List.mem_singleton_self b, found, dropped⟩⟩
            obtain rfl := List.mem_singleton.mp member
            exact other

theorem recordsAfter_silent (unpaid : ∀ c ∈ budgets, c.proposalAt h = some x → c.timesPaidAt h vout = 0)
    (v : Int) :
    recordsAfter h vout x budgets none = none ∧
      (recordsAfter h vout x budgets (some v) = some v ∨ recordsAfter h vout x budgets (some v) = none) ∧
      ((∃ c ∈ budgets, c.timesPaidAt h vout ≠ 0 ∧ c.covers v = false) → recordsAfter h vout x budgets (some v) = none) := by
  induction budgets using List.reverseRecOn with
  | nil => exact ⟨rfl, Or.inl rfl, fun ⟨c, impossible, _⟩ => by cases impossible⟩
  | append_singleton budgets b ih =>
    obtain ⟨fresh, kept, dropped⟩ := ih fun c member => unpaid c (List.mem_append_left _ member)
    have own := unpaid b (List.mem_append_right _ List.mem_cons_self)
    have filters : ∀ paid : Option Int, recordAfter h vout x paid b = if b.timesPaidAt h vout = 0 then paid else paid.filter b.covers := by
      intro paid
      unfold recordAfter
      split
      · rfl
      · next found => rw [if_neg fun both => found (own both.1)]
    have still : recordAfter h vout x none b = none := by rw [filters, Option.filter_none, ite_self]
    rw [recordsAfter_snoc, recordsAfter_snoc, fresh]
    refine ⟨still, ?_, ?_⟩
    · rcases kept with same | gone
      · rw [same, filters, Option.filter_some]
        split
        · exact Or.inl rfl
        · split
          · exact Or.inl rfl
          · exact Or.inr rfl
      · exact Or.inr (by rw [gone, still])
    · rintro ⟨c, member, found, outside⟩
      rcases List.mem_append.mp member with before | last
      · rw [dropped ⟨c, before, found, outside⟩, still]
      · obtain rfl := List.mem_singleton.mp last
        rcases kept with same | gone
        · rw [same, filters, if_neg found, Option.filter_some, if_neg (Bool.not_eq_true _ ▸ outside)]
        · rw [gone, still]

theorem filter_records_iff (cover : ∀ c ∈ budgets, c.covers h = true) {b : CFinalizedBudget}
    (covers : b.covers h = true) : (recordsAfter h vout x budgets none).filter b.covers = none ↔
      ∀ c ∈ budgets, c.proposalAt h = some x → c.timesPaidAt h vout = 0 := by
  constructor
  · intro gone
    have after : recordsAfter h vout x budgets none = none := by
      cases after : recordsAfter h vout x budgets none with
      | none => rfl
      | some v =>
        rcases recordsAfter_some after with rfl | ⟨impossible, _⟩
        · rw [after, Option.filter_some, if_pos covers] at gone
          cases gone
        · cases impossible
    obtain ⟨early, late, rfl, unpaid, ⟨_, rfl⟩ | ⟨v, impossible, _⟩⟩ := recordsAfter_none cover after
    · exact unpaid
    · cases impossible
  · intro unpaid
    rw [(recordsAfter_silent unpaid h).1, Option.filter_none]

end Budgets

end CFinalizedBudget

namespace CBudgetManager

def considered (nCountThreshold : Int) (nBlockHeight : Int) (b : CFinalizedBudget) : Bool :=
  decide (b.getVoteCount > nCountThreshold) && b.covers nBlockHeight

theorem exists_prefix_cons (Q : List α → α → Prop) (x : α) (l : List α) :
    (∃ before c after, x :: l = before ++ c :: after ∧ Q before c) ↔
      Q [] x ∨ ∃ before c after, l = before ++ c :: after ∧ Q (x :: before) c := by
  constructor
  · rintro ⟨before, c, after, split_, holds⟩
    cases before with
    | nil =>
      obtain ⟨rfl, _⟩ := List.cons.inj split_
      exact Or.inl holds
    | cons y before =>
      obtain ⟨rfl, rest⟩ := List.cons.inj split_
      exact Or.inr ⟨before, c, after, rest, holds⟩
  · rintro (holds | ⟨before, c, after, rfl, holds⟩)
    · exact ⟨[], x, l, rfl, holds⟩
    · exact ⟨x :: before, c, after, rfl, holds⟩

section Checks

variable {nCountThreshold h : Int} {txNew : CTransaction}

theorem considered_covers {budgets : List CFinalizedBudget} (member : c ∈ budgets.filter (considered nCountThreshold h)) :
    c.covers h = true := by
  have passes := (List.mem_filter.mp member).2
  simp only [considered, Bool.and_eq_true] at passes
  exact passes.2

theorem checkBudgets_considered (txNew : CTransaction) (looked : considered nCountThreshold h b = true)
    (budgets : List CFinalizedBudget) (status : TrxValidationStatus) (fThreshold : Bool) (history : StdMap uint256 Int) :
    b.covers h = true ∧ checkBudgets nCountThreshold txNew h (b :: budgets) status fThreshold history =
      if (b.isTransactionValid history txNew h).1 = .valid then b.isTransactionValid history txNew h
      else checkBudgets nCountThreshold txNew h budgets (b.isTransactionValid history txNew h).1 true
        (b.isTransactionValid history txNew h).2 := by
  simp only [considered, Bool.and_eq_true, decide_eq_true_eq] at looked
  rw [checkBudgets, if_pos looked.1, if_pos looked.2]
  exact ⟨looked.2, rfl⟩

theorem checkBudgets_passed (txNew : CTransaction) (passed : ¬considered nCountThreshold h b = true)
    (budgets : List CFinalizedBudget) (status : TrxValidationStatus) (fThreshold : Bool) :
    ∃ fThreshold', ∀ history : StdMap uint256 Int,
      checkBudgets nCountThreshold txNew h (b :: budgets) status fThreshold history =
        checkBudgets nCountThreshold txNew h budgets status fThreshold' history := by
  by_cases votes : b.getVoteCount > nCountThreshold
  · refine ⟨true, fun history => ?_⟩
    rw [checkBudgets, if_pos votes, if_neg fun covers => passed (by simp [considered, votes, covers])]
  · refine ⟨fThreshold, fun history => ?_⟩
    rw [checkBudgets, if_neg votes]

theorem checkBudgets_valid_records (budgets : List CFinalizedBudget) (status : TrxValidationStatus) (fThreshold : Bool)
    (history : StdMap uint256 Int) (started : status ≠ .valid) :
    (checkBudgets nCountThreshold txNew h budgets status fThreshold history).1 = .valid ↔
      ∃ before b after, budgets.filter (considered nCountThreshold h) = before ++ b :: after ∧
        b.timesPaidAt h txNew.vout = 1 ∧ ∃ x, b.proposalAt h = some x ∧
          (CFinalizedBudget.recordsAfter h txNew.vout x before (history.lookup x)).filter b.covers = none := by
  induction budgets generalizing status fThreshold history with
  | nil =>
    rw [checkBudgets]
    refine iff_of_false ?_ ?_
    · split
      · exact started
      · exact fun impossible => by cases impossible
    · rintro ⟨before, b, after, split_, _⟩
      simp at split_
  | cons b budgets ih =>
    by_cases looked : considered nCountThreshold h b = true
    · obtain ⟨covers, checked⟩ := checkBudgets_considered txNew looked budgets status fThreshold history
      obtain ⟨valid, _, recorded⟩ := CFinalizedBudget.isTransactionValid_records covers txNew history
      rw [checked, List.filter_cons_of_pos looked,
        exists_prefix_cons (fun before c => c.timesPaidAt h txNew.vout = 1 ∧ ∃ x, c.proposalAt h = some x ∧
          (CFinalizedBudget.recordsAfter h txNew.vout x before (history.lookup x)).filter c.covers = none)]
      by_cases here : (b.isTransactionValid history txNew h).1 = .valid
      · rw [if_pos here]
        exact iff_of_true here (Or.inl (valid.mp here))
      · have unmet : ¬(b.timesPaidAt h txNew.vout = 1 ∧ ∃ x, b.proposalAt h = some x ∧
            (CFinalizedBudget.recordsAfter h txNew.vout x [] (history.lookup x)).filter b.covers = none) := fun found =>
          here (valid.mpr found)
        rw [if_neg here, ih _ true _ here, or_iff_right unmet]
        simp only [recorded]
        rfl
    · obtain ⟨fThreshold', passed⟩ := checkBudgets_passed txNew looked budgets status fThreshold
      rw [passed, List.filter_cons_of_neg looked]
      exact ih status fThreshold' history started

end Checks

end CBudgetManager

end SchillingCoin
