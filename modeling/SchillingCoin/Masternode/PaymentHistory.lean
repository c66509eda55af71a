import SchillingCoin.Masternode.BudgetPayee

/-!
How the checks of budget payments depend on the payments on record, after `CFinalizedBudget::IsPaidAlready`.
-/

namespace SchillingCoin

namespace CFinalizedBudget

section Budgets

variable {h : Int} {vout : List CTxOut} {x : uint256}

theorem recordsAfter_kept (kept : ∀ c ∈ budgets, c.timesPaidAt h vout ≠ 0 → c.covers v = true) :
    recordsAfter h vout x budgets (some v) = some v := by
  induction budgets using List.reverseRecOn with
  | nil => rfl
  | append_singleton budgets b ih =>
    rw [recordsAfter_snoc, ih fun c member => kept c (List.mem_append_left _ member)]
    unfold recordAfter
    split
    · rfl
    · next found =>
      have covers := kept b (List.mem_append_right _ List.mem_cons_self) found
      rw [Option.filter_some, if_pos covers, if_neg (by simp)]

end Budgets

/-- Some record bars no payment once `before` has been looked at: there was none, or a record of another height is kept until
the last payment of the proposal was found and forgotten after that. -/
theorem record_gone_iff (cover : ∀ c ∈ before, c.covers h = true) (bCovers : b.covers h = true)
    (once : b.timesPaidAt h vout = 1) :
    (∃ paid, (recordsAfter h vout x before paid).filter b.covers = none) ↔
      ∃ early late v, before = early ++ late ∧ (∀ c ∈ early, c.timesPaidAt h vout ≠ 0 → c.covers v = true) ∧
        (∀ c ∈ late, c.proposalAt h = some x → c.timesPaidAt h vout = 0) ∧
        ∃ c ∈ late ++ [b], c.timesPaidAt h vout ≠ 0 ∧ c.covers v = false := by
  constructor
  · rintro ⟨paid, gone⟩
    cases after : recordsAfter h vout x before paid with
    | none =>
      obtain ⟨early, late, rfl, unpaid, ⟨_, rfl⟩ | ⟨v, _, kept, c, member, dropped⟩⟩ := recordsAfter_none cover after
      · -- nothing is on record: any height after the range of `b` will do
        refine ⟨[], late, b.getBlockEnd + 1, rfl, (fun c impossible => by cases impossible), unpaid, b,
          List.mem_append_right _ List.mem_cons_self, by omega, ?_⟩
        rw [CFinalizedBudget.covers, Bool.and_eq_false_iff, decide_eq_false_iff_not, decide_eq_false_iff_not]
        exact Or.inr (by omega)
      · exact ⟨early, late, v, rfl, kept, unpaid, c, List.mem_append_left _ member, dropped⟩
    | some v =>
      have outside : b.covers v = false := by
        rw [after, Option.filter_some] at gone
        split at gone
        · cases gone
        · next outside => exact Bool.not_eq_true _ ▸ outside
      rcases recordsAfter_some after with rfl | ⟨_, kept⟩
      · cases bCovers.symm.trans outside
      · exact ⟨before, [], v, (List.append_nil before).symm, kept, (fun c impossible => by cases impossible), b,
          List.mem_cons_self, by omega, outside⟩
  · rintro ⟨early, late, v, rfl, kept, unpaid, c, member, found, outside⟩
    refine ⟨some v, ?_⟩
    rw [recordsAfter, List.foldl_append, ← recordsAfter, ← recordsAfter, recordsAfter_kept kept]
    obtain ⟨_, same | gone, dropped⟩ := recordsAfter_silent unpaid v
    · rcases List.mem_append.mp member with between | last
      · rw [dropped ⟨c, between, found, outside⟩, Option.filter_none]
      · obtain rfl := List.mem_singleton.mp last
        rw [same, Option.filter_some, if_neg (Bool.not_eq_true _ ▸ outside)]
    · rw [gone, Option.filter_none]

end CFinalizedBudget

namespace CBudgetManager

/-- Some budget finds its payment once, and a record of some height `v` would not bar it: the budgets before the last payment
of its proposal keep that record and one from there on forgets it. -/
def Payable (nBlockHeight : Int) (vout : List CTxOut) (budgets : List CFinalizedBudget) : Prop :=
  ∃ early late b after v, budgets = early ++ late ++ b :: after ∧ b.timesPaidAt nBlockHeight vout = 1 ∧
    (∀ c ∈ early, c.timesPaidAt nBlockHeight vout ≠ 0 → c.covers v = true) ∧
    (∀ c ∈ late, c.proposalAt nBlockHeight = b.proposalAt nBlockHeight → c.timesPaidAt nBlockHeight vout = 0) ∧
    ∃ c ∈ late ++ [b], c.timesPaidAt nBlockHeight vout ≠ 0 ∧ c.covers v = false

def afterChecks (m : CBudgetManager) (others : List (CTransaction × Int)) : CBudgetManager :=
  others.foldl (fun m other => (m.isTransactionValid other.1 other.2).2) m

/-- Whatever payments are on record, and whatever is checked in between, a second check of the transaction gives the verdict of the first. -/
def Repeatable (m : CBudgetManager) (txNew : CTransaction) (nBlockHeight : Int) : Prop :=
  ∀ (history : StdMap uint256 Int) (others : List (CTransaction × Int)),
    ((({ m with mapPaymentHistory := history }.isTransactionValid txNew nBlockHeight).2.afterChecks others).isTransactionValid
      txNew nBlockHeight).1 = ({ m with mapPaymentHistory := history }.isTransactionValid txNew nBlockHeight).1

section Checks

variable {nCountThreshold h : Int} {txNew : CTransaction}

theorem checkBudgets_refused (budgets : List CFinalizedBudget) (status : TrxValidationStatus) (fThreshold : Bool)
    (refused : (checkBudgets nCountThreshold txNew h budgets status fThreshold history).1 ≠ .valid)
    (refused' : (checkBudgets nCountThreshold txNew h budgets status fThreshold history').1 ≠ .valid) :
    (checkBudgets nCountThreshold txNew h budgets status fThreshold history).1 =
      (checkBudgets nCountThreshold txNew h budgets status fThreshold history').1 := by
  induction budgets generalizing status fThreshold history history' with
  | nil => rfl
  | cons b budgets ih =>
    by_cases looked : considered nCountThreshold h b = true
    · obtain ⟨covers, checked⟩ := checkBudgets_considered txNew looked budgets status fThreshold history
      obtain ⟨_, checked'⟩ := checkBudgets_considered txNew looked budgets status fThreshold history'
      rw [checked] at refused ⊢
      rw [checked'] at refused' ⊢
      obtain ⟨_, answer, _⟩ := CFinalizedBudget.isTransactionValid_records covers txNew history
      obtain ⟨_, answer', _⟩ := CFinalizedBudget.isTransactionValid_records covers txNew history'
      by_cases here : (b.isTransactionValid history txNew h).1 = .valid
      · rw [if_pos here] at refused
        exact absurd here refused
      · by_cases here' : (b.isTransactionValid history' txNew h).1 = .valid
        · rw [if_pos here'] at refused'
          exact absurd here' refused'
        · rw [if_neg here, answer here] at refused ⊢
          rw [if_neg here', answer' here'] at refused' ⊢
          exact ih _ true refused refused'
    · obtain ⟨fThreshold', passed⟩ := checkBudgets_passed txNew looked budgets status fThreshold
      rw [passed] at refused refused' ⊢
      rw [passed]
      exact ih status fThreshold' refused refused'

theorem checkBudgets_stays (budgets : List CFinalizedBudget) (status : TrxValidationStatus) (fThreshold : Bool)
    (here : history.lookup x = some h) :
    (checkBudgets nCountThreshold txNew h budgets status fThreshold history).2.lookup x = some h := by
  induction budgets generalizing status fThreshold history with
  | nil => exact here
  | cons b budgets ih =>
    by_cases looked : considered nCountThreshold h b = true
    · obtain ⟨covers, checked⟩ := checkBudgets_considered txNew looked budgets status fThreshold history
      obtain ⟨_, _, recorded⟩ := CFinalizedBudget.isTransactionValid_records covers txNew history
      have stays : (b.isTransactionValid history txNew h).2.lookup x = some h := by
        rw [recorded, here]
        exact CFinalizedBudget.recordAfter_here covers
      rw [checked]
      split
      · exact stays
      · exact ih _ true stays
    · obtain ⟨fThreshold', passed⟩ := checkBudgets_passed txNew looked budgets status fThreshold
      rw [passed]
      exact ih status fThreshold' here

theorem checkBudgets_adds (budgets : List CFinalizedBudget) (status : TrxValidationStatus) (fThreshold : Bool)
    (started : status ≠ .valid) (valid : (checkBudgets nCountThreshold txNew h budgets status fThreshold history).1 = .valid) :
    ∃ b ∈ budgets.filter (considered nCountThreshold h), ∃ x, b.proposalAt h = some x ∧ history.lookup x ≠ some h ∧
      (checkBudgets nCountThreshold txNew h budgets status fThreshold history).2.lookup x = some h := by
  induction budgets generalizing status fThreshold history with
  | nil =>
    rw [checkBudgets] at valid
    split at valid
    · exact absurd valid started
    · cases valid
  | cons b budgets ih =>
    by_cases looked : considered nCountThreshold h b = true
    · obtain ⟨covers, checked⟩ := checkBudgets_considered txNew looked budgets status fThreshold history
      obtain ⟨found, _, recorded⟩ := CFinalizedBudget.isTransactionValid_records covers txNew history
      rw [checked] at valid ⊢
      rw [List.filter_cons_of_pos looked]
      by_cases here : (b.isTransactionValid history txNew h).1 = .valid
      · rw [if_pos here]
        obtain ⟨once, x, own, absent⟩ := found.mp here
        refine ⟨b, List.mem_cons_self, x, own, fun paid => ?_, ?_⟩
        · rw [paid, Option.filter_some, if_pos covers] at absent
          cases absent
        · rw [recorded, CFinalizedBudget.recordAfter, if_neg (by omega), if_pos ⟨own, absent⟩]
      · rw [if_neg here] at valid ⊢
        obtain ⟨c, member, x, own, fresh, added⟩ := ih _ true here valid
        refine ⟨c, List.mem_cons_of_mem b member, x, own, fun paid => fresh ?_, added⟩
        rw [recorded, paid]
        exact CFinalizedBudget.recordAfter_here covers
    · obtain ⟨fThreshold', passed⟩ := checkBudgets_passed txNew looked budgets status fThreshold
      rw [passed] at valid ⊢
      rw [List.filter_cons_of_neg looked]
      exact ih status fThreshold' started valid

end Checks

section Manager

variable {m : CBudgetManager} {txNew : CTransaction} {h : Int}

def withHistory (m : CBudgetManager) (history : StdMap uint256 Int) : CBudgetManager := { m with mapPaymentHistory := history }

theorem isTransactionValid_unpaid (few : m.highestCount h 0 < (m.countEnabled / 20 : Nat)) (history : StdMap uint256 Int) :
    ((m.withHistory history).isTransactionValid txNew h).1 = .inValid :=
  congrArg Prod.fst (if_pos few)

theorem isTransactionValid_checked (enough : ¬m.highestCount h 0 < (m.countEnabled / 20 : Nat)) (history : StdMap uint256 Int) :
    (m.withHistory history).isTransactionValid txNew h =
      ((checkBudgets (m.highestCount h 0 - (m.countEnabled / 10 : Nat)) txNew h (m.mapFinalizedBudgets.entries.map Sigma.snd)
          .inValid false history).1,
        m.withHistory (checkBudgets (m.highestCount h 0 - (m.countEnabled / 10 : Nat)) txNew h
          (m.mapFinalizedBudgets.entries.map Sigma.snd) .inValid false history).2) :=
  if_neg enough

theorem isTransactionValid_history (m : CBudgetManager) (txNew : CTransaction) (h : Int) (history : StdMap uint256 Int) :
    ∃ history', ((m.withHistory history).isTransactionValid txNew h).2 = m.withHistory history' := by
  by_cases few : m.highestCount h 0 < (m.countEnabled / 20 : Nat)
  · exact ⟨history, congrArg Prod.snd (if_pos few)⟩
  · exact ⟨_, congrArg Prod.snd (isTransactionValid_checked few history)⟩

theorem afterChecks_history (m : CBudgetManager) (others : List (CTransaction × Int)) (history : StdMap uint256 Int) :
    ∃ history', (m.withHistory history).afterChecks others = m.withHistory history' := by
  induction others generalizing history with
  | nil => exact ⟨history, rfl⟩
  | cons other others ih =>
    obtain ⟨next, same⟩ := isTransactionValid_history m other.1 other.2 history
    rw [afterChecks, List.foldl_cons, same]
    exact ih next

theorem valid_for_some_history_iff (enough : ¬m.highestCount h 0 < (m.countEnabled / 20 : Nat)) :
    (∃ history, ((m.withHistory history).isTransactionValid txNew h).1 = .valid) ↔ Payable h txNew.vout (m.closeBudgets h) := by
  have covers : ∀ c ∈ m.closeBudgets h, c.covers h = true := fun c member => considered_covers member
  have split_iff : ∀ history, ((m.withHistory history).isTransactionValid txNew h).1 = .valid ↔
      ∃ before b after, m.closeBudgets h = before ++ b :: after ∧ b.timesPaidAt h txNew.vout = 1 ∧ ∃ x, b.proposalAt h = some x ∧
        (CFinalizedBudget.recordsAfter h txNew.vout x before (history.lookup x)).filter b.covers = none := by
    intro history
    rw [isTransactionValid_checked enough]
    exact checkBudgets_valid_records _ .inValid false history (by decide)
  constructor
  · rintro ⟨history, valid⟩
    obtain ⟨before, b, after, parts, once, x, own, absent⟩ := (split_iff history).mp valid
    rw [parts] at covers
    obtain ⟨early, late, v, rfl, kept, unpaid, dropped⟩ := (CFinalizedBudget.record_gone_iff (x := x)
      (fun c member => covers c (List.mem_append_left _ member)) (covers b (by simp)) once).mp ⟨_, absent⟩
    exact ⟨early, late, b, after, v, parts, once, kept, own ▸ unpaid, dropped⟩
  · rintro ⟨early, late, b, after, v, parts, once, kept, unpaid, dropped⟩
    rw [parts] at covers
    have bCovers : b.covers h = true := covers b (by simp)
    obtain ⟨payment, scheduled⟩ := CFinalizedBudget.paymentAt_of_covers bCovers
    have own : b.proposalAt h = some payment.nProposalHash := by
      rw [CFinalizedBudget.proposalAt, scheduled]
      rfl
    obtain ⟨paid, absent⟩ := (CFinalizedBudget.record_gone_iff (x := payment.nProposalHash)
      (fun c member => covers c (List.mem_append_left _ member)) bCovers once).mpr
        ⟨early, late, v, rfl, kept, own ▸ unpaid, dropped⟩
    -- a record with this one entry, or none
    obtain ⟨history, found⟩ : ∃ history : StdMap uint256 Int, history.lookup payment.nProposalHash = paid := by
      cases paid with
      | none => exact ⟨∅, rfl⟩
      | some v => exact ⟨(∅ : StdMap uint256 Int).insert payment.nProposalHash v, AList.lookup_insert _⟩
    exact ⟨history, (split_iff history).mpr ⟨early ++ late, b, after, parts, once, _, own, by rw [found]; exact absent⟩⟩

def onRecord (h : Int) (history : StdMap uint256 Int) (b : CFinalizedBudget) : Bool :=
  (b.proposalAt h).any fun x => history.lookup x == some h

theorem onRecord_iff : onRecord h history b = true ↔ ∃ x, b.proposalAt h = some x ∧ history.lookup x = some h := by
  unfold onRecord
  cases b.proposalAt h with
  | none => simp
  | some x => simp

theorem countP_lt_countP {p q : α → Bool} {l : List α} (keeps : ∀ a ∈ l, p a = true → q a = true) {b : α} (member : b ∈ l)
    (off : ¬p b = true) (on : q b = true) : l.countP p < l.countP q := by
  obtain ⟨before, after, rfl⟩ := List.append_of_mem member
  have left := List.countP_mono_left fun a inside => keeps a (List.mem_append_left _ inside)
  have right := List.countP_mono_left fun a inside => keeps a (List.mem_append_right _ (List.mem_cons_of_mem b inside))
  rw [List.countP_append, List.countP_append, List.countP_cons_of_neg off, List.countP_cons_of_pos on]
  omega

theorem onRecord_grows (enough : ¬m.highestCount h 0 < (m.countEnabled / 20 : Nat)) {history : StdMap uint256 Int}
    (valid : ((m.withHistory history).isTransactionValid txNew h).1 = .valid) :
    (m.closeBudgets h).countP (onRecord h history) <
      (m.closeBudgets h).countP (onRecord h ((m.withHistory history).isTransactionValid txNew h).2.mapPaymentHistory) := by
  rw [isTransactionValid_checked enough] at valid ⊢
  obtain ⟨b, member, x, own, fresh, added⟩ := checkBudgets_adds _ .inValid false (by decide) valid
  refine countP_lt_countP (fun c _ recorded => ?_) member (fun recorded => ?_) (onRecord_iff.mpr ⟨x, own, added⟩)
  · obtain ⟨y, scheduled, here⟩ := onRecord_iff.mp recorded
    exact onRecord_iff.mpr ⟨y, scheduled, checkBudgets_stays _ .inValid false here⟩
  · obtain ⟨y, scheduled, here⟩ := onRecord_iff.mp recorded
    obtain rfl := Option.some.inj (own.symm.trans scheduled)
    exact fresh here

end Manager

/-- Checking a payment is repeatable exactly when it never succeeds: when too few masternodes have voted, or no budget that is looked at
can be paid by the transaction. -/
theorem check_repeatable_iff (m : CBudgetManager) (txNew : CTransaction) (nBlockHeight : Int) :
    m.Repeatable txNew nBlockHeight ↔ ¬(((m.countEnabled / 20 : Nat) : Int) ≤ m.highestCount nBlockHeight 0 ∧
      Payable nBlockHeight txNew.vout (m.closeBudgets nBlockHeight)) := by
  constructor
  · rintro repeatable ⟨many, payable⟩
    have enough : ¬m.highestCount nBlockHeight 0 < (m.countEnabled / 20 : Nat) := by omega
    obtain ⟨history, valid⟩ := (valid_for_some_history_iff enough).mpr payable
    -- every further check would put one more payment on record, and there are only so many budgets
    have growing : ∀ n : Nat, ∃ next, ((m.withHistory history).isTransactionValid txNew nBlockHeight).2.afterChecks
        (List.replicate n (txNew, nBlockHeight)) = m.withHistory next ∧
          n < (m.closeBudgets nBlockHeight).countP (onRecord nBlockHeight next) := by
      intro n
      induction n with
      | zero =>
        obtain ⟨next, same⟩ := isTransactionValid_history m txNew nBlockHeight history
        have more := onRecord_grows enough valid
        rw [same] at more
        exact ⟨next, same, Nat.zero_lt_of_lt more⟩
      | succ n ih =>
        obtain ⟨next, same, count⟩ := ih
        have again := repeatable history (List.replicate n (txNew, nBlockHeight))
        have still : ((m.withHistory next).isTransactionValid txNew nBlockHeight).1 = .valid := by
          rw [← same]
          exact again.trans valid
        obtain ⟨last, after⟩ := isTransactionValid_history m txNew nBlockHeight next
        have more := onRecord_grows enough still
        rw [after] at more
        refine ⟨last, ?_, Nat.lt_of_le_of_lt count more⟩
        unfold afterChecks at same ⊢
        rw [List.replicate_succ', List.foldl_append, same]
        exact after
    obtain ⟨next, _, tooMany⟩ := growing (m.closeBudgets nBlockHeight).length
    exact absurd tooMany (Nat.not_lt.mpr List.countP_le_length)
  · intro hopeless history others
    obtain ⟨checked, same⟩ := isTransactionValid_history m txNew nBlockHeight history
    obtain ⟨later, after⟩ := afterChecks_history m others checked
    show ((((m.withHistory history).isTransactionValid txNew nBlockHeight).2.afterChecks others).isTransactionValid txNew nBlockHeight).1 =
      ((m.withHistory history).isTransactionValid txNew nBlockHeight).1
    rw [same, after]
    by_cases few : m.highestCount nBlockHeight 0 < (m.countEnabled / 20 : Nat)
    · rw [isTransactionValid_unpaid few, isTransactionValid_unpaid few]
    · have never : ∀ other, ((m.withHistory other).isTransactionValid txNew nBlockHeight).1 ≠ .valid := by
        intro other valid
        exact hopeless ⟨by omega, (valid_for_some_history_iff few).mp ⟨other, valid⟩⟩
      have refused := never later
      have refused' := never history
      rw [isTransactionValid_checked few] at refused refused' ⊢
      rw [isTransactionValid_checked few]
      exact checkBudgets_refused _ .inValid false refused refused'

/-- A block that pays a budget with one vote is found valid when it arrives and a double payment when it is connected. -/
theorem payment_refused_when_checked_again :
    ((oneBudget 301 10).isTransactionValid { budgetStake with vout := [{ nValue := 500000000, scriptPubKey := [0x51] }] } 301).1 = .valid ∧
      (((oneBudget 301 10).isTransactionValid { budgetStake with vout := [{ nValue := 500000000, scriptPubKey := [0x51] }] } 301).2.isTransactionValid
        { budgetStake with vout := [{ nValue := 500000000, scriptPubKey := [0x51] }] } 301).1 = .doublePayment ∧
      ¬(oneBudget 301 10).Repeatable { budgetStake with vout := [{ nValue := 500000000, scriptPubKey := [0x51] }] } 301 := by
  refine ⟨by decide, by decide, fun repeatable => ?_⟩
  have same := repeatable ∅ []
  revert same
  decide

end CBudgetManager

end SchillingCoin
