import SchillingCoin.Validation.ConnectBlock

/-!
What the acceptance of a block by `ConnectBlock` says, check by check.
-/

namespace SchillingCoin

open Checked (refuse)

theorem orAbort_ok (h : orAbort reason o = .ok a) : o = some a := by
  cases o with
  | none => cases h
  | some b => exact congrArg some (Except.ok.inj h)

theorem getValueOut_loop
    (h : outs.foldlM (fun nValueOut o => if o.nValue < 0 then none else if nValueOut + o.nValue ≥ 2 ^ 63 then none else some (nValueOut + o.nValue)) acc = some total) :
    (∀ o ∈ outs, 0 ≤ o.nValue) ∧ total = acc + (outs.map CTxOut.nValue).sum ∧ (outs ≠ [] → total < 2 ^ 63) := by
  induction outs generalizing acc with
  | nil =>
    simp only [List.foldlM_nil, Option.pure_def, Option.some.injEq] at h
    simp [h]
  | cons o outs ih =>
    simp only [List.foldlM_cons, Option.bind_eq_bind, Option.bind_eq_some_iff] at h
    obtain ⟨mid, first, rest⟩ := h
    split at first
    · cases first
    · rename_i nonneg
      split at first
      · cases first
      · rename_i small
        obtain rfl := Option.some.inj first
        obtain ⟨others, sum, bound⟩ := ih rest
        refine ⟨?_, ?_, fun _ => ?_⟩
        · intro p mem
          rcases List.mem_cons.mp mem with rfl | mem
          · omega
          · exact others p mem
        · rw [sum, List.map_cons, List.sum_cons]
          omega
        · cases outs with
          | nil =>
            simp only [List.map_nil, List.sum_nil] at sum
            omega
          | cons p outs => exact bound (by simp)

variable {tx : CTransaction} {view : CoinsView} {s : ChainState} {checks : Checks}
  {ctx : ConnectContext} {block : CBlock}

theorem getValueOut_spec (h : tx.getValueOut = some nValueOut) :
    (∀ o ∈ tx.vout, 0 ≤ o.nValue) ∧ nValueOut = (tx.vout.map CTxOut.nValue).sum ∧ nValueOut < 2 ^ 63 := by
  obtain ⟨nonneg, sum, bound⟩ := getValueOut_loop h
  refine ⟨nonneg, by simpa using sum, ?_⟩
  by_cases empty : tx.vout = []
  · rw [empty] at sum
    simp only [List.map_nil, List.sum_nil] at sum
    omega
  · exact bound empty

theorem checkInputCoins_ok (h : checkInputCoins network view nSpendHeight acc vin = .ok total) :
    ∀ i ∈ vin, (((view.coinsAt i.prevout.hash).fCoinBase || (view.coinsAt i.prevout.hash).fCoinStake) = true →
        nSpendHeight - (view.coinsAt i.prevout.hash).nHeight ≥ network.consensus.nCoinbaseMaturity) ∧
      network.consensus.moneyRange ((view.coinsAt i.prevout.hash).outputAt i.prevout.n).nValue = true := by
  induction vin generalizing acc with
  | nil => simp
  | cons txin rest ih =>
    simp only [checkInputCoins] at h
    split at h
    · cases h
    · rename_i mature
      split at h
      · cases h
      · rename_i range
        intro i mem
        rcases List.mem_cons.mp mem with rfl | mem
        · refine ⟨fun flagged => ?_, ?_⟩
          · rw [flagged, Bool.true_and, decide_eq_true_eq] at mature
            omega
          · simp only [Bool.or_eq_true, Bool.not_eq_true', not_or, Bool.not_eq_false] at range
            exact range.1
        · exact ih h i mem

theorem checkInputs_ok (spends : (tx.isCoinBase || tx.hasZerocoinSpendInputs) = false)
    (h : checkInputs s checks view tx fScriptChecks cltv = .ok ()) :
    view.haveInputs tx = true ∧ ∃ pindexPrev nValueIn, s.mapBlockIndex.lookup view.hashBlock = some pindexPrev ∧
      checkInputCoins s.network view (pindexPrev.nHeight + 1) 0 tx.vin = .ok nValueIn ∧
      checkFee s.network tx nValueIn = .ok () := by
  rw [checkInputs, spends, if_neg (by simp)] at h
  obtain ⟨have_, h⟩ := Checked.after_refuse h
  obtain ⟨pindexPrev, found, h⟩ := Checked.bind_ok h
  obtain ⟨nValueIn, coins, h⟩ := Checked.bind_ok h
  obtain ⟨_, fee, _⟩ := Checked.bind_ok h
  exact ⟨by simpa using have_, pindexPrev, nValueIn, orAbort_ok found, coins, fee⟩

theorem connectInputs_ok (h : connectInputs ctx view totals tx = .ok totals') :
    view.haveInputs tx = true ∧ ∃ nValueIn, view.getValueIn tx = some nValueIn ∧
      checkInputs ctx.chain ctx.checks view tx ctx.fScriptChecks ctx.fCLTVIsActivated = .ok () ∧
      totals'.nValueIn = int64 (totals.nValueIn + nValueIn) ∧ totals'.nValueOut = totals.nValueOut ∧
      (tx.isCoinStake = true → totals'.nFees = totals.nFees) ∧
      (tx.isCoinStake = false → ∃ nValueOut, tx.getValueOut = some nValueOut ∧
        totals'.nFees = int64 (totals.nFees + int64 (nValueIn - nValueOut))) := by
  obtain ⟨have_, h⟩ := Checked.after_refuse h
  obtain ⟨spent, _, h⟩ := Checked.bind_ok h
  obtain ⟨_, h⟩ := Checked.after_refuse h
  obtain ⟨nValueIn, value, h⟩ := Checked.bind_ok h
  obtain ⟨nFees, fees, h⟩ := Checked.bind_ok h
  obtain ⟨_, inputs, h⟩ := Checked.bind_ok h
  obtain rfl := Except.ok.inj h
  refine ⟨by simpa using have_, nValueIn, orAbort_ok value, inputs, rfl, rfl, fun stake => ?_, fun plain => ?_⟩
  · rw [addFee, if_pos stake] at fees
    exact (Except.ok.inj fees).symm
  · rw [addFee, if_neg (by simp [plain])] at fees
    obtain ⟨nValueOut, out, fees⟩ := Checked.bind_ok fees
    exact ⟨nValueOut, orAbort_ok out, (Except.ok.inj fees).symm⟩

structure TxConnected (ctx : ConnectContext) (i : Nat) (st st' : ConnectState) (tx : CTransaction) (txundo : CTxUndo) :
    Prop where
  pruned : (st.view.coinsAt tx.hash).isPruned = true
  update : st.view.updateCoins tx ctx.nHeight = some (st'.view, txundo)
  undo : st'.vtxundo = if i = 0 then st.vtxundo else st.vtxundo ++ [txundo]
  valueOut : ∃ nValueOut, tx.getValueOut = some nValueOut ∧
    st'.totals.nValueOut = int64 (st.totals.nValueOut + nValueOut)
  coinbase : tx.isCoinBase = true → st'.totals.nValueIn = st.totals.nValueIn ∧ st'.totals.nFees = st.totals.nFees
  spends : tx.spendsCoins = true → st.view.haveInputs tx = true ∧ ∃ nValueIn, st.view.getValueIn tx = some nValueIn ∧
    checkInputs ctx.chain ctx.checks st.view tx ctx.fScriptChecks ctx.fCLTVIsActivated = .ok () ∧
    st'.totals.nValueIn = int64 (st.totals.nValueIn + nValueIn) ∧
    (tx.isCoinStake = true → st'.totals.nFees = st.totals.nFees) ∧
    (tx.isCoinStake = false → ∃ nValueOut, tx.getValueOut = some nValueOut ∧
      st'.totals.nFees = int64 (st.totals.nFees + int64 (nValueIn - nValueOut)))

theorem connectTx_ok (h : connectTx ctx i st tx = .ok st') : ∃ txundo, TxConnected ctx i st st' tx txundo := by
  obtain ⟨unused, h⟩ := Checked.after_refuse h
  obtain ⟨_, h⟩ := Checked.after_refuse h
  obtain ⟨_, h⟩ := Checked.after_refuse h
  obtain ⟨_, h⟩ := Checked.after_refuse h
  obtain ⟨totals, inputs, h⟩ := Checked.bind_ok h
  obtain ⟨nValueOut, out, h⟩ := Checked.bind_ok h
  obtain ⟨⟨view, txundo⟩, update, h⟩ := Checked.bind_ok h
  obtain rfl := Except.ok.inj h
  have pruned := CoinsView.isPruned_coinsAt.mp unused
  unfold connectTxInputs at inputs
  split at inputs
  · rename_i zerocoin
    obtain rfl := Except.ok.inj inputs
    refine ⟨txundo, pruned, orAbort_ok update, rfl, ⟨nValueOut, orAbort_ok out, rfl⟩, fun base => ?_, fun spends => ?_⟩
    · rw [CTransaction.spendInputs_of_isCoinBase base] at zerocoin
      cases zerocoin
    · rw [(CTransaction.spendsCoins_iff.mp spends).2] at zerocoin
      cases zerocoin
  · split at inputs
    · rename_i plain
      have base : tx.isCoinBase = false := by simpa using plain
      obtain ⟨have_, nValueIn, value, checked, sumIn, sumOut, stake, fees⟩ := connectInputs_ok inputs
      refine ⟨txundo, pruned, orAbort_ok update, rfl, ⟨nValueOut, orAbort_ok out, ?_⟩,
        fun mint => absurd (base.symm.trans mint) (by simp), fun _ => ⟨have_, nValueIn, value, checked, sumIn, stake, fees⟩⟩
      exact congrArg (fun x => int64 (x + nValueOut)) sumOut
    · rename_i mint
      obtain rfl := Except.ok.inj inputs
      refine ⟨txundo, pruned, orAbort_ok update, rfl, ⟨nValueOut, orAbort_ok out, rfl⟩, fun _ => ⟨rfl, rfl⟩,
        fun spends => absurd (CTransaction.spendsCoins_iff.mp spends).1 (by simpa using mint)⟩

theorem connectTx_outputs (h : connectTx ctx i st tx = .ok st') (o : COutPoint) :
    st'.view.isOutputAvailable o =
      if o.hash = tx.hash then (CCoins.fromTx tx ctx.nHeight).isAvailable o.n
      else st.view.isOutputAvailable o && !(tx.spendsCoins && decide (o ∈ tx.prevouts)) := by
  obtain ⟨txundo, connected⟩ := connectTx_ok h
  have update := connected.update
  rw [CoinsView.updateCoins, ← CTransaction.spendsCoins] at update
  cases spends : tx.spendsCoins with
  | false =>
    simp only [spends, Bool.false_eq_true, if_false, Option.bind_eq_bind, Option.bind_some, Option.pure_def,
      Option.some.injEq, Prod.mk.injEq] at update
    rw [← update.1, CoinsView.isOutputAvailable_addOutputs]
    simp
  | true =>
    simp only [spends, if_true, Option.bind_eq_bind, Option.bind_eq_some_iff, Option.pure_def, Option.some.injEq,
      Prod.mk.injEq] at update
    obtain ⟨⟨mid, undos⟩, spent, view, _⟩ := update
    rw [← view, CoinsView.isOutputAvailable_addOutputs, CoinsView.isOutputAvailable_spendInputs spent, Bool.true_and]
    rfl

theorem checkBlockShape_ok (h : ChainState.checkBlockShape block = .ok ()) :
    ∃ coinbase rest, block.vtx = coinbase :: rest ∧ coinbase.isCoinBase = true ∧
      ∀ tx ∈ rest, tx.isCoinBase = false := by
  unfold ChainState.checkBlockShape at h
  split at h
  · cases h
  · rename_i coinbase rest shape
    obtain ⟨first, h⟩ := Checked.after_refuse h
    obtain ⟨others, _⟩ := Checked.after_refuse h
    exact ⟨coinbase, rest, shape, by simpa using first, by simpa using others⟩

theorem checkBlock_ok (h : s.checkBlock checks block fCheckMerkleRoot = .ok budget) :
    ChainState.checkBlockShape block = .ok () ∧ s.checkBlockPayments checks block = .ok budget ∧
      ∀ tx ∈ block.vtx, checkTransaction checks s.network tx (decide (block.nTime > s.network.consensus.ZC_TimeStart))
        ((s.paymentsChecked block).isNone || s.isSporkActive .coldStakingEnforcement) = .ok () := by
  obtain ⟨_, h⟩ := Checked.after_refuse h
  obtain ⟨_, h⟩ := Checked.after_refuse h
  obtain ⟨_, h⟩ := Checked.after_refuse h
  obtain ⟨_, h⟩ := Checked.after_refuse h
  obtain ⟨_, shape, h⟩ := Checked.bind_ok h
  obtain ⟨_, _, h⟩ := Checked.bind_ok h
  obtain ⟨budget', payments, h⟩ := Checked.bind_ok h
  obtain ⟨_, transactions, h⟩ := Checked.bind_ok h
  obtain ⟨_, h⟩ := Checked.after_refuse h
  obtain rfl := Except.ok.inj h
  exact ⟨shape, payments, Checked.all_ok transactions⟩

structure BlockConnected (s : ChainState) (checks : Checks) (block : CBlock) (pindex pprev : CBlockIndex)
    (view : CoinsView) (c : Connected) (st : ConnectState) : Prop where
  checked : s.checkBlock checks block true = .ok c.budget
  best : pprev.hash = view.hashBlock
  notEarly : ¬(pindex.nHeight ≤ s.network.consensus.height_last_PoW ∧ block.isProofOfStake = true)
  notLate : ¬(pindex.nHeight > s.network.consensus.height_last_PoW ∧ block.isProofOfWork = true)
  transactions : connectTransactions s checks block pindex pprev view = .ok st
  view_eq : c.view = st.view.setBestBlock pindex.hash
  undo_eq : c.blockundo = some st.vtxundo
  supply : c.nMoneySupply = int64 (int64 (pprev.nMoneySupply + st.totals.nValueOut) - st.totals.nValueIn)
  value : ({ s with budget := c.budget } : ChainState).isBlockValueValid block
    (if block.isProofOfWork then int64 (s.network.getBlockValue pprev.nHeight + st.totals.nFees)
      else s.network.getBlockValue pprev.nHeight)
    (int64 (int64 (c.nMoneySupply - pprev.nMoneySupply) + st.totals.nFees)) = true

theorem connectBlock_genesis (genesis : block.hash = s.hashGenesisBlock)
    (h : connectBlock s checks block pindex pprev view = .ok c) :
    s.checkBlock checks block true = .ok c.budget ∧ c.view = view.setBestBlock pindex.hash ∧ c.blockundo = none ∧
      c.nMoneySupply = pindex.nMoneySupply := by
  obtain ⟨budget, checked, h⟩ := Checked.bind_ok h
  obtain ⟨_, h⟩ := Checked.after_refuse h
  rw [if_pos genesis] at h
  obtain rfl := Except.ok.inj h
  exact ⟨checked, rfl, rfl, rfl⟩

theorem connectBlock_ok (other : block.hash ≠ s.hashGenesisBlock)
    (h : connectBlock s checks block pindex (some pprev) view = .ok c) :
    ∃ st, BlockConnected s checks block pindex pprev view c st := by
  obtain ⟨budget, checked, h⟩ := Checked.bind_ok h
  obtain ⟨best, h⟩ := Checked.after_refuse h
  rw [if_neg other] at h
  obtain ⟨early, h⟩ := Checked.after_refuse h
  obtain ⟨late, h⟩ := Checked.after_refuse h
  obtain ⟨prev, here, h⟩ := Checked.bind_ok h
  obtain rfl := Option.some.inj (orAbort_ok here)
  obtain ⟨st, transactions, h⟩ := Checked.bind_ok h
  obtain ⟨value, h⟩ := Checked.after_refuse h
  obtain rfl := Except.ok.inj h
  exact ⟨st, checked, by simpa using best, by simpa using early, by simpa using late, transactions, rfl, rfl, rfl,
    by simpa using value⟩

def passingChecks : Checks where
  checkBlockHeader _ _ := true
  merkleRootMatches _ := true
  merkleTreeMutated _ := false
  blockSize _ := 1000
  txSize _ := 250
  getLegacySigOpCount _ := 1
  p2shSigOps _ _ := 1
  verifyScript _ _ _ _ := true
  getTransaction _ := none
  publicCoinsValid _ := true
  zerocoinSpent _ := 0

def mintTx (hash : uint256) (vout : List CTxOut) : CTransaction :=
  { hash, vin := [{ prevout := .null, scriptSig := [0x51, 0x51] }], vout }

def spendTx (hash : uint256) (prevouts : List COutPoint) (vout : List CTxOut) : CTransaction :=
  { hash, vin := prevouts.map fun prevout => { prevout }, vout }

def payTo (coins : Int) : CTxOut := { nValue := coins * COIN, scriptPubKey := [0x51] }

def stakeMarker : CTxOut := { nValue := 0, scriptPubKey := [] }

def nodeAt (nHeight : Nat) : ChainState where
  network := .main
  hashGenesisBlock := 1
  mapBlockIndex := (∅ : StdMap uint256 CBlockIndex).insert (BitVec.ofNat 256 (10000 + nHeight))
    { hash := BitVec.ofNat 256 (10000 + nHeight), nHeight }
  tip := some { hash := BitVec.ofNat 256 (10000 + nHeight), nHeight }
  isSynced := true

end SchillingCoin
