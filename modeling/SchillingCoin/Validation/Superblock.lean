import SchillingCoin.Validation.Ledger

/-!
The value that a block mints at a height for which a finalized budget has the votes.
-/

namespace SchillingCoin

/-- Coinbases, coinstakes and spends of zerocoins, which pay no fee out of what they spend. -/
def CTransaction.paysNoFee (tx : CTransaction) : Bool := tx.hasZerocoinSpendInputs || tx.isCoinBase || tx.isCoinStake

def rewardOutputs (txs : List CTransaction) : List CTxOut := (txs.filter CTransaction.paysNoFee).flatMap CTransaction.vout

/-- The worth of an output to a transaction of a block: as an earlier one, the last first, made it, or else as the view has it. -/
def CoinsView.worth (view : CoinsView) (earlier : List CTransaction) (o : COutPoint) : Int :=
  match earlier.find? fun tx => tx.hash = o.hash with
  | some tx => (tx.vout.getD o.n .null).nValue
  | none => view.valueAt o

def takenBy (checks : Checks) (worth : COutPoint → Int) (tx : CTransaction) : Int :=
  if tx.hasZerocoinSpendInputs then checks.zerocoinSpent tx
  else if tx.isCoinBase then 0
  else if tx.isCoinStake then (tx.vin.map fun i => worth i.prevout).sum
  else 0

/-- What the transactions without a fee take in, each by the worth of its inputs after those before it. -/
def rewardInputs (checks : Checks) (view : CoinsView) : (earlier : List CTransaction) → List CTransaction → Int
  | _, [] => 0
  | earlier, tx :: rest => takenBy checks (view.worth earlier) tx + rewardInputs checks view (tx :: earlier) rest

def CTxBudgetPayment.isPaidBy (payment : CTxBudgetPayment) (out : CTxOut) : Bool :=
  payment.payee = out.scriptPubKey ∧ payment.nAmount = out.nValue

/-- Outputs without one that makes a payment of a known budget stay within a limit, which the amount raises where none makes it. -/
def CBudgetManager.Covers (m : CBudgetManager) (nBlockHeight : Int) (vout : List CTxOut) (limit : Int) : Prop :=
  ∃ hash b payment, m.mapFinalizedBudgets.lookup hash = some b ∧ b.paymentAt nBlockHeight = some payment ∧
    ((vout.eraseP payment.isPaidBy).map CTxOut.nValue).sum ≤ limit + if vout.any payment.isPaidBy then 0 else payment.nAmount

theorem CBudgetManager.covers_iff {m : CBudgetManager} :
    m.Covers nBlockHeight vout limit ↔
      ∃ nAmount, m.Schedules nBlockHeight nAmount ∧ (vout.map CTxOut.nValue).sum ≤ limit + nAmount := by
  have erased (payment : CTxBudgetPayment) : ((vout.eraseP payment.isPaidBy).map CTxOut.nValue).sum +
      (if vout.any payment.isPaidBy then payment.nAmount else 0) = (vout.map CTxOut.nValue).sum := by
    induction vout with
    | nil => rfl
    | cons out rest ih =>
      rw [List.eraseP_cons, List.any_cons]
      cases paid : payment.isPaidBy out with
      | true =>
        have amount : payment.nAmount = out.nValue := (of_decide_eq_true paid).2
        simp only [cond_true, Bool.true_or, if_true, List.map_cons, List.sum_cons]
        omega
      | false =>
        simp only [cond_false, Bool.false_or, List.map_cons, List.sum_cons]
        omega
  constructor
  · rintro ⟨hash, b, payment, known, scheduled, bound⟩
    have sum := erased payment
    refine ⟨payment.nAmount, ⟨hash, b, payment, known, scheduled, rfl⟩, ?_⟩
    split at sum <;> rename_i paid
    · rw [if_pos paid] at bound
      omega
    · rw [if_neg paid] at bound
      omega
  · rintro ⟨_, ⟨hash, b, payment, known, scheduled, rfl⟩, bound⟩
    have sum := erased payment
    refine ⟨hash, b, payment, known, scheduled, ?_⟩
    split at sum <;> rename_i paid
    · rw [if_pos paid]
      omega
    · rw [if_neg paid]
      omega

namespace BlockTotals

def minted (t : BlockTotals) : Int := t.nValueOut - t.nValueIn + t.nFees

end BlockTotals

def Connected.nMint (c : Connected) (pprev : CBlockIndex) (totals : BlockTotals) : Int :=
  int64 (int64 (c.nMoneySupply - pprev.nMoneySupply) + totals.nFees)

/-- The block mints at most its ordinary value and the amount of a scheduled payment. -/
def Connected.MintCovered (s : ChainState) (c : Connected) (pprev : CBlockIndex) (totals : BlockTotals) : Prop :=
  ∃ nAmount, s.budget.Schedules (pprev.nHeight + 1) nAmount ∧
    c.nMint pprev totals ≤ s.network.getBlockValue pprev.nHeight + nAmount

/-- What a total loses in 64 bits. -/
def lost64 (x : Int) : Int := x - int64 x

theorem int64_eq_add (x : Int) : ∃ k, int64 x = x + 2 ^ 64 * k :=
  ⟨-((x - int64 x) / 2 ^ 64), by
    have := Int.dvd_self_sub_bmod (x := x) (m := 2 ^ 64)
    unfold int64
    omega⟩

theorem int64_congr (k : Int) (h : x = y + 2 ^ 64 * k) : int64 x = int64 y := by
  rw [h]
  exact Int.add_mul_bmod_self_left ..

theorem eq_add_of_int64_eq (h : int64 x = int64 y) : ∃ k, x = y + 2 ^ 64 * k := by
  obtain ⟨k, left⟩ := int64_eq_add x
  obtain ⟨l, right⟩ := int64_eq_add y
  exact ⟨l - k, by omega⟩

section Worth

variable {view v w : CoinsView} {earlier : List CTransaction} {tx : CTransaction} {o : COutPoint}

theorem CoinsView.worth_cons (view : CoinsView) (tx : CTransaction) (earlier : List CTransaction) (o : COutPoint) :
    view.worth (tx :: earlier) o = if tx.hash = o.hash then (tx.vout.getD o.n .null).nValue else view.worth earlier o := by
  unfold worth
  by_cases here : tx.hash = o.hash
  · rw [if_pos here, List.find?_cons_of_pos (by simpa using here)]
  · rw [if_neg here, List.find?_cons_of_neg (by simp [here])]

/-- The unspent outputs of a view are worth what an earlier view and the transactions since say. -/
def CoinsView.Follows (view : CoinsView) (earlier : List CTransaction) (v : CoinsView) : Prop :=
  ∀ o out, out.isNull = false → (v.coinsAt o.hash).vout[o.n]? = some out → out.nValue = view.worth earlier o

theorem CoinsView.follows_self (view : CoinsView) : view.Follows [] view := by
  intro o out _ found
  rw [worth, List.find?_nil, valueAt, CCoins.outputAt, List.getD_eq_getElem?_getD, found, Option.getD_some]

theorem CoinsView.Follows.valueAt (follows : view.Follows earlier v) (available : v.isOutputAvailable o = true) :
    v.valueAt o = view.worth earlier o := by
  obtain ⟨out, found, left, _⟩ := CCoins.isAvailable_iff.mp available
  rw [← follows o out left found, CoinsView.valueAt, CCoins.outputAt, List.getD_eq_getElem?_getD, found, Option.getD_some]

theorem CoinsView.Follows.updateCoins (follows : view.Follows earlier v) (update : v.updateCoins tx nHeight = some (w, txundo)) :
    view.Follows (tx :: earlier) w := by
  obtain ⟨mid, undos, spent, rfl⟩ : ∃ mid undos, (mid = v ∨ v.spendInputs tx.vin = some (mid, undos)) ∧ mid.addOutputs tx nHeight = w := by
    rw [CoinsView.updateCoins, ← CTransaction.spendsCoins] at update
    cases spends : tx.spendsCoins with
    | false =>
      simp only [spends, Bool.false_eq_true, if_false, Option.bind_eq_bind, Option.bind_some, Option.pure_def, Option.some.injEq,
        Prod.mk.injEq] at update
      exact ⟨v, [], Or.inl rfl, update.1⟩
    | true =>
      simp only [spends, if_true, Option.bind_eq_bind, Option.bind_eq_some_iff, Option.pure_def, Option.some.injEq,
        Prod.mk.injEq] at update
      obtain ⟨⟨mid, undos⟩, spent, made, _⟩ := update
      exact ⟨mid, undos, Or.inr spent, made⟩
  intro o out left found
  have made := CoinsView.unspent_addOutputs left found
  rw [worth_cons]
  by_cases here : tx.hash = o.hash
  · rw [if_pos here] at made
    rw [if_pos here, List.getD_eq_getElem?_getD, made, Option.getD_some]
  · rw [if_neg here] at made
    rw [if_neg here]
    apply follows o out left
    rcases spent with rfl | spent
    · exact made
    · exact CoinsView.unspent_spendInputs spent left made

theorem rewardOutputs_cons (tx : CTransaction) (rest : List CTransaction) :
    ((rewardOutputs (tx :: rest)).map CTxOut.nValue).sum =
      (if tx.paysNoFee then tx.valueOut else 0) + ((rewardOutputs rest).map CTxOut.nValue).sum := by
  unfold rewardOutputs
  cases reward : tx.paysNoFee with
  | true => rw [List.filter_cons_of_pos reward, List.flatMap_cons, List.map_append, List.sum_append, if_pos rfl, CTransaction.valueOut]
  | false => rw [List.filter_cons_of_neg (by simp [reward]), if_neg (by simp), zero_add]

theorem connectTx_minted (follows : view.Follows earlier st.view) (h : connectTx ctx i st tx = .ok st') :
    int64 st'.totals.minted =
        int64 (st.totals.minted + ((if tx.paysNoFee then tx.valueOut else 0) - takenBy ctx.checks (view.worth earlier) tx)) ∧
      view.Follows (tx :: earlier) st'.view := by
  obtain ⟨_, h⟩ := Checked.after_refuse h
  obtain ⟨_, h⟩ := Checked.after_refuse h
  obtain ⟨_, h⟩ := Checked.after_refuse h
  obtain ⟨_, h⟩ := Checked.after_refuse h
  obtain ⟨totals, inputs, h⟩ := Checked.bind_ok h
  obtain ⟨nValueOut, out, h⟩ := Checked.bind_ok h
  obtain ⟨⟨after, txundo⟩, update, h⟩ := Checked.bind_ok h
  obtain rfl := Except.ok.inj h
  have value := orAbort_ok out
  obtain rfl : nValueOut = tx.valueOut := (getValueOut_spec value).2.1
  refine ⟨?_, follows.updateCoins (orAbort_ok update)⟩
  obtain ⟨k, wrapOut⟩ := int64_eq_add (totals.nValueOut + tx.valueOut)
  simp only [BlockTotals.minted, wrapOut]
  unfold connectTxInputs at inputs
  unfold takenBy CTransaction.paysNoFee
  cases spend : tx.hasZerocoinSpendInputs with
  | true =>
    rw [spend, if_pos rfl] at inputs
    obtain rfl := Except.ok.inj inputs
    obtain ⟨l, wrapIn⟩ := int64_eq_add (st.totals.nValueIn + ctx.checks.zerocoinSpent tx)
    simp only [Bool.true_or, if_true]
    apply int64_congr (k - l)
    simp only [wrapIn]
    omega
  | false =>
    rw [spend, if_neg (by simp)] at inputs
    cases base : tx.isCoinBase with
    | true =>
      rw [base, Bool.not_true, if_neg (by simp)] at inputs
      obtain rfl := Except.ok.inj inputs
      simp only [Bool.false_or, Bool.true_or, Bool.false_eq_true, if_false, if_true]
      apply int64_congr k
      omega
    | false =>
      rw [base, Bool.not_false, if_pos rfl] at inputs
      obtain ⟨have_, nValueIn, got, _, sumIn, sumOut, stake, fees⟩ := connectInputs_ok inputs
      have worth : (tx.vin.map fun i => st.view.valueAt i.prevout) = tx.vin.map fun i => view.worth earlier i.prevout := by
        apply List.map_congr_left
        intro i member
        rw [CoinsView.haveInputs, base, spend, Bool.false_or, Bool.false_or, List.all_eq_true] at have_
        exact follows.valueAt (have_ i member)
      have sameIn : int64 nValueIn = int64 (tx.vin.map fun i => view.worth earlier i.prevout).sum := by
        simpa [worth] using getValueIn_values base got 0
      obtain ⟨m, exactIn⟩ := eq_add_of_int64_eq sameIn
      obtain ⟨l, wrapIn⟩ := int64_eq_add (st.totals.nValueIn + nValueIn)
      rw [sumIn, sumOut]
      simp only at wrapIn ⊢
      rw [wrapIn]
      cases staked : tx.isCoinStake with
      | true =>
        rw [stake staked]
        simp only [Bool.or_true, Bool.false_eq_true, if_false, if_true]
        apply int64_congr (k - l - m)
        omega
      | false =>
        obtain ⟨out', value', sumFees⟩ := fees staked
        obtain rfl : tx.valueOut = out' := Option.some.inj (value.symm.trans value')
        obtain ⟨f, wrapFee⟩ := int64_eq_add (nValueIn - tx.valueOut)
        obtain ⟨g, wrapFees⟩ := int64_eq_add (st.totals.nFees + int64 (nValueIn - tx.valueOut))
        rw [sumFees]
        simp only [Bool.or_false, Bool.false_eq_true, if_false]
        apply int64_congr (k - l + f + g)
        omega

theorem connectTxs_minted (follows : view.Follows earlier st.view) (h : connectTxs ctx i st txs = .ok st') :
    int64 st'.totals.minted = int64 (st.totals.minted +
      (((rewardOutputs txs).map CTxOut.nValue).sum - rewardInputs ctx.checks view earlier txs)) := by
  induction txs generalizing i st earlier with
  | nil =>
    obtain rfl := Except.ok.inj h
    simp [rewardOutputs, rewardInputs]
  | cons tx txs ih =>
    obtain ⟨mid, first, rest⟩ := Checked.bind_ok h
    obtain ⟨here, later⟩ := connectTx_minted follows first
    rw [ih later rest, ← int64_int64_add, here, int64_int64_add, rewardOutputs_cons, rewardInputs]
    congr 1
    omega

end Worth

theorem BlockConnected.nMint_eq (connected : BlockConnected s checks block pindex pprev view c st) :
    c.nMint pprev st.totals =
      int64 (((rewardOutputs block.vtx).map CTxOut.nValue).sum - rewardInputs checks view [] block.vtx) := by
  have created := connectTxs_minted view.follows_self connected.transactions
  rw [show ({} : BlockTotals).minted = 0 from rfl, Int.zero_add] at created
  obtain ⟨k, sum⟩ := int64_eq_add (pprev.nMoneySupply + st.totals.nValueOut)
  obtain ⟨l, supply⟩ := int64_eq_add (int64 (pprev.nMoneySupply + st.totals.nValueOut) - st.totals.nValueIn)
  rw [← connected.supply] at supply
  refine Eq.trans ?_ created
  rw [Connected.nMint, int64_int64_add]
  apply int64_congr (k + l)
  unfold BlockTotals.minted
  omega

theorem heightOf_child (s : ChainState) (parent : block.hashPrevBlock = pindexPrev.hash) :
    s.heightOf pindexPrev block = pindexPrev.nHeight + 1 :=
  if_pos parent.symm

theorem isBlockValueValid_payment {s : ChainState} (tip : s.tip = some pprev) (parent : block.hashPrevBlock = pprev.hash)
    (synced : s.isSynced = true) (superblocks : s.isSporkActive .enableSuperblocks = true)
    (payment : s.budget.isBudgetPaymentBlock (pprev.nHeight + 1) = true) (nExpectedValue nMinted : Int) :
    s.isBlockValueValid block nExpectedValue nMinted = true := by
  have height := heightOf_child s parent
  simp only [ChainState.isBlockValueValid, tip, synced, superblocks, height]
  simp [payment]

theorem checkInputCoins_total (start : network.consensus.moneyRange acc = true)
    (h : checkInputCoins network view nSpendHeight acc vin = .ok total) :
    total = acc + (vin.map fun i => view.valueAt i.prevout).sum ∧ network.consensus.moneyRange total = true := by
  have limit : network.consensus.nMaxMoneyOut < 2 ^ 62 := by cases network <;> decide
  induction vin generalizing acc with
  | nil =>
    obtain rfl := Except.ok.inj h
    exact ⟨by simp, start⟩
  | cons txin rest ih =>
    simp only [checkInputCoins] at h
    split at h
    · cases h
    split at h
    · cases h
    rename_i range
    rw [Bool.not_eq_true, Bool.or_eq_false_iff, Bool.not_eq_false', Bool.not_eq_false'] at range
    obtain ⟨sum, fits⟩ := ih range.2 h
    have value : ((view.coinsAt txin.prevout.hash).vout.getD txin.prevout.n .null).nValue = view.valueAt txin.prevout := rfl
    rw [value] at range sum
    simp only [Consensus.Params.moneyRange, Bool.and_eq_true, decide_eq_true_eq] at range start
    rw [int64_of_fits ⟨by omega, by omega⟩] at sum
    exact ⟨by rw [List.map_cons, List.sum_cons]; omega, fits⟩

theorem lost64_of_fits (fits : FitsInt64 x) : lost64 x = 0 := by
  rw [lost64, int64_of_fits fits, sub_self]

section Rewards

variable {s : ChainState} {checks : Checks} {block : CBlock} {pindex pprev : CBlockIndex} {view : CoinsView} {c : Connected}
  {st : ConnectState}

theorem BlockConnected.mintCovered_iff (connected : BlockConnected s checks block pindex pprev view c st) :
    c.MintCovered s pprev st.totals ↔ s.budget.Covers (pprev.nHeight + 1) (rewardOutputs block.vtx)
      (rewardInputs checks view [] block.vtx +
        lost64 (((rewardOutputs block.vtx).map CTxOut.nValue).sum - rewardInputs checks view [] block.vtx) +
        s.network.getBlockValue pprev.nHeight) := by
  rw [CBudgetManager.covers_iff, Connected.MintCovered, connected.nMint_eq, lost64]
  refine exists_congr fun nAmount => and_congr_right fun _ => ?_
  constructor
  · intro bound
    omega
  · intro bound
    omega

theorem rewardInputs_ordinary (earlier : List CTransaction) (ordinary : ∀ tx ∈ txs, tx.paysNoFee = false) :
    rewardInputs checks view earlier txs = 0 ∧ rewardOutputs txs = [] := by
  induction txs generalizing earlier with
  | nil => exact ⟨rfl, rfl⟩
  | cons tx txs ih =>
    have fee := ordinary tx List.mem_cons_self
    obtain ⟨inputs, outputs⟩ := ih (tx :: earlier) fun t member => ordinary t (List.mem_cons_of_mem _ member)
    refine ⟨?_, by rw [rewardOutputs, List.filter_cons_of_neg (by simp [fee]), ← rewardOutputs, outputs]⟩
    simp only [CTransaction.paysNoFee, Bool.or_eq_false_iff] at fee
    simp [rewardInputs, takenBy, inputs, fee]

/-- With proof of stake and no zerocoins only the coinstake creates value, and its values are in the range of money. -/
theorem BlockConnected.stake_reward (connected : BlockConnected s checks block pindex pprev view c st)
    (vtx : block.vtx = coinbase :: coinstake :: rest) (stake : block.isProofOfStake = true) (free : block.ZerocoinFree) :
    c.MintCovered s pprev st.totals ↔ s.budget.Covers (pprev.nHeight + 1) coinstake.vout
      ((coinstake.vin.map fun i => view.worth [coinbase] i.prevout).sum + s.network.getBlockValue pprev.nHeight) := by
  have noSpends : ∀ tx ∈ block.vtx, tx.hasZerocoinSpendInputs = false := fun tx member => CTransaction.spendInputs_false (free tx member)
  have staked : coinstake.isCoinStake = true := by simpa [CBlock.isProofOfStake, vtx] using stake
  have shape := (checkBlock_ok connected.checked).1
  simp only [ChainState.checkBlockShape, vtx, stake, Bool.true_and] at shape
  obtain ⟨base, shape⟩ := Checked.after_refuse shape
  obtain ⟨others, shape⟩ := Checked.after_refuse shape
  obtain ⟨empty, shape⟩ := Checked.after_refuse shape
  replace base : coinbase.isCoinBase = true := by simpa using base
  replace others : ∀ tx ∈ coinstake :: rest, tx.isCoinBase = false := by simpa using others
  have single : ∀ tx ∈ rest, tx.isCoinStake = false := by simpa [Checked.refuse_ok] using shape
  -- the coinbase of a proof of stake has one output, without a value
  have nothing : coinbase.valueOut = 0 := by
    rcases out : coinbase.vout with _ | ⟨o, _ | ⟨_, _⟩⟩
    · simp [CTransaction.valueOut, out]
    · have zero : o.nValue = 0 := by
        simp only [out, List.length_singleton, List.all_cons, List.all_nil, CTxOut.isEmpty] at empty
        simp at empty
        exact empty.1
      simp [CTransaction.valueOut, out, zero]
    · simp [out] at empty
  have ordinary : ∀ tx ∈ rest, tx.paysNoFee = false := by
    intro tx member
    simp [CTransaction.paysNoFee, noSpends tx (by simp [vtx, member]), others tx (by simp [member]), single tx member]
  obtain ⟨noInputs, noOutputs⟩ : rewardInputs checks view [coinstake, coinbase] rest = 0 ∧ _ := rewardInputs_ordinary _ ordinary
  have plain := others coinstake List.mem_cons_self
  have noSpend := noSpends coinstake (by simp [vtx])
  have inputs : rewardInputs checks view [] block.vtx = (coinstake.vin.map fun i => view.worth [coinbase] i.prevout).sum := by
    rw [vtx]
    simp [rewardInputs, takenBy, noInputs, noSpends coinbase (by simp [vtx]), base, noSpend, plain, staked]
  have outputs : ((rewardOutputs block.vtx).map CTxOut.nValue).sum = coinstake.valueOut := by
    rw [vtx, rewardOutputs_cons, rewardOutputs_cons, noOutputs]
    simp [CTransaction.paysNoFee, base, staked, nothing]
  -- the coinstake is connected after the coinbase, with the values that `CheckInputs` allows
  have run := connected.transactions
  rw [connectTransactions, vtx] at run
  obtain ⟨mid, first, run⟩ := Checked.bind_ok run
  obtain ⟨after, second, _⟩ := Checked.bind_ok run
  have follows := (connectTx_minted view.follows_self first).2
  obtain ⟨_, connectedStake⟩ := connectTx_ok second
  obtain ⟨nValueOut, value, _⟩ := connectedStake.valueOut
  obtain ⟨nonneg, sum, small⟩ := getValueOut_spec value
  obtain ⟨have_, _, _, checked, _⟩ := connectedStake.spends (CTransaction.spendsCoins_iff.mpr ⟨plain, noSpend⟩)
  obtain ⟨_, pindexPrev, nValueIn, _, coins, _⟩ := checkInputs_ok (by rw [plain, noSpend]; rfl) checked
  obtain ⟨total, range⟩ := checkInputCoins_total (by cases s.network <;> decide) coins
  have worth : (coinstake.vin.map fun i => mid.view.valueAt i.prevout) = coinstake.vin.map fun i => view.worth [coinbase] i.prevout := by
    apply List.map_congr_left
    intro i member
    rw [CoinsView.haveInputs, plain, noSpend, Bool.false_or, Bool.false_or, List.all_eq_true] at have_
    exact follows.valueAt (have_ i member)
  have least : 0 ≤ coinstake.valueOut := List.sum_nonneg fun x member => by
    obtain ⟨o, listed, rfl⟩ := List.mem_map.mp member
    exact nonneg o listed
  have limit : s.network.consensus.nMaxMoneyOut < 2 ^ 63 := by cases s.network <;> decide
  simp only [Consensus.Params.moneyRange, Bool.and_eq_true, decide_eq_true_eq] at range
  rw [worth] at total
  rw [connected.mintCovered_iff, CBudgetManager.covers_iff, CBudgetManager.covers_iff, inputs, outputs, lost64_of_fits, add_zero]
  · rfl
  · have same : coinstake.valueOut = nValueOut := sum.symm
    constructor
    · omega
    · omega

/-- With proof of work, no zerocoins and no coinstake only the coinbase creates value. -/
theorem BlockConnected.work_reward (connected : BlockConnected s checks block pindex pprev view c st)
    (vtx : block.vtx = coinbase :: rest) (free : block.ZerocoinFree) (unstaked : ∀ tx ∈ rest, tx.isCoinStake = false) :
    c.MintCovered s pprev st.totals ↔
      s.budget.Covers (pprev.nHeight + 1) coinbase.vout (s.network.getBlockValue pprev.nHeight) := by
  have noSpends : ∀ tx ∈ block.vtx, tx.hasZerocoinSpendInputs = false := fun tx member => CTransaction.spendInputs_false (free tx member)
  obtain ⟨_, _, same, base, others⟩ := checkBlockShape_ok (checkBlock_ok connected.checked).1
  obtain ⟨rfl, rfl⟩ := List.cons.inj (vtx.symm.trans same)
  have ordinary : ∀ tx ∈ rest, tx.paysNoFee = false := by
    intro tx member
    simp [CTransaction.paysNoFee, noSpends tx (by simp [vtx, member]), others tx member, unstaked tx member]
  obtain ⟨noInputs, noOutputs⟩ : rewardInputs checks view [coinbase] rest = 0 ∧ _ := rewardInputs_ordinary _ ordinary
  have inputs : rewardInputs checks view [] block.vtx = 0 := by
    rw [vtx]
    simp [rewardInputs, takenBy, noInputs, noSpends coinbase (by simp [vtx]), base]
  have outputs : ((rewardOutputs block.vtx).map CTxOut.nValue).sum = coinbase.valueOut := by
    rw [vtx, rewardOutputs_cons, noOutputs]
    simp [CTransaction.paysNoFee, base]
  have run := connected.transactions
  rw [connectTransactions, vtx] at run
  obtain ⟨mid, first, _⟩ := Checked.bind_ok run
  obtain ⟨_, connectedBase⟩ := connectTx_ok first
  obtain ⟨nValueOut, value, _⟩ := connectedBase.valueOut
  obtain ⟨nonneg, sum, small⟩ := getValueOut_spec value
  have least : 0 ≤ coinbase.valueOut := List.sum_nonneg fun x member => by
    obtain ⟨o, listed, rfl⟩ := List.mem_map.mp member
    exact nonneg o listed
  rw [connected.mintCovered_iff, CBudgetManager.covers_iff, CBudgetManager.covers_iff, inputs, outputs, lost64_of_fits, zero_add, zero_add]
  · rfl
  · have same : coinbase.valueOut = nValueOut := sum.symm
    constructor
    · omega
    · omega

end Rewards

section PaymentBlocks

def budgetVote (masternode : uint256) : CFinalizedBudgetVote :=
  { vin := { prevout := ⟨masternode, 0⟩ }, nBudgetHash := 1, nTime := 0 }

def budgetNode : ChainState :=
  { nodeAt 299 with
    isSporkActive := fun _ => true
    budget :=
      { mapFinalizedBudgets := (∅ : StdMap uint256 CFinalizedBudget).insert 1
          { nBlockStart := 300
            vecBudgetPayments := [{ nProposalHash := 5, payee := [0x52], nAmount := 10 * COIN }]
            mapVotes := ((∅ : StdMap uint256 CFinalizedBudgetVote).insert 1 (budgetVote 1)).insert 2 (budgetVote 2) |>.insert 3
              (budgetVote 3) }
        countEnabled := 20 } }

def budgetParent : CBlockIndex := { hash := BitVec.ofNat 256 10299, nHeight := 299 }

def budgetEntry : CBlockIndex := { hash := 7, pprev := some budgetParent.hash, nHeight := 300 }

def stakeView : CoinsView :=
  ({ hashBlock := budgetParent.hash } : CoinsView).addOutputs (spendTx 1001 [⟨901, 0⟩] [payTo 100]) 150

def budgetBlock (coins : Int) : CBlock :=
  { hash := 7
    hashPrevBlock := budgetParent.hash
    vtx := [mintTx 2000 [stakeMarker],
      spendTx 2001 [⟨1001, 0⟩] [stakeMarker, payTo coins, { nValue := 10 * COIN, scriptPubKey := [0x52] }]] }

theorem budgetNode_schedules (nAmount : Int) : budgetNode.budget.Schedules 300 nAmount ↔ nAmount = 10 * COIN := by
  constructor
  · rintro ⟨hash, b, payment, found, scheduled, rfl⟩
    simp only [budgetNode, StdMap.lookup_insert_ite] at found
    split at found
    · obtain rfl := Option.some.inj found
      obtain rfl : _ = payment := Option.some.inj scheduled
      rfl
    · cases found
  · rintro rfl
    exact ⟨1, _, _, rfl, rfl, rfl⟩

theorem budgetBlock_mints (coins nMint : Int)
    (run : ((connectBlock budgetNode passingChecks (budgetBlock coins) budgetEntry (some budgetParent) stakeView).toOption.bind
      fun c => (connectTransactions budgetNode passingChecks (budgetBlock coins) budgetEntry budgetParent stakeView).toOption.map
        fun st => c.nMint budgetParent st.totals) = some nMint) :
    ∃ c st, connectBlock budgetNode passingChecks (budgetBlock coins) budgetEntry (some budgetParent) stakeView = .ok c ∧
      connectTransactions budgetNode passingChecks (budgetBlock coins) budgetEntry budgetParent stakeView = .ok st ∧
      c.nMint budgetParent st.totals = nMint := by
  obtain ⟨c, accepted, rest⟩ := Option.bind_eq_some_iff.mp run
  obtain ⟨st, totals, minted⟩ := Option.map_eq_some_iff.mp rest
  exact ⟨c, st, Checked.ok_of_toOption accepted, Checked.ok_of_toOption totals, minted⟩

end PaymentBlocks

end SchillingCoin
