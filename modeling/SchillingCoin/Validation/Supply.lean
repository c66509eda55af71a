import Mathlib.Algebra.Order.Group.Int
import SchillingCoin.Validation.Ledger

/-!
The money supply of a chain that `ConnectBlock` accepts block by block: it is the value of the coins
view and of the outputs that never entered it, as long as the sums of every block fit 64 bits.
-/

namespace SchillingCoin

/-- The sums that `GetValueIn`, `CheckInputs` and `GetValueOut` form for one transaction. -/
def TxValues.sums (e : TxValues) : List Int :=
  e.ins.scanl (· + ·) 0 ++ e.outs.scanl (· + ·) 0 ++ if e.paysFee then [e.valueIn - e.valueOut] else []

/-- The sums that `ConnectBlock` forms for a block: over the transactions, then for the supply, the minted
value and, for a proof of work, the expected one. -/
def blockSums (nMoneySupplyPrev nBlockValue : Int) (isProofOfWork : Bool) (l : List TxValues) : List Int :=
  l.flatMap TxValues.sums ++ (l.map TxValues.valueIn).scanl (· + ·) 0 ++ (l.map TxValues.valueOut).scanl (· + ·) 0 ++
    (l.map TxValues.fee).scanl (· + ·) 0 ++
    [nMoneySupplyPrev + totalOut l, nMoneySupplyPrev + totalOut l - totalIn l, totalOut l - totalIn l,
      totalOut l - totalIn l + totalFees l] ++
    if isProofOfWork then [nBlockValue + totalFees l] else []

structure BlockFits (nMoneySupplyPrev nBlockValue : Int) (block : CBlock) (l : List TxValues) : Prop where
  supply : nMoneySupplyPrev + (block.vtx.map CTransaction.valueOut).sum < 2 ^ 63
  reward : block.isProofOfWork = true → nBlockValue + totalFees l < 2 ^ 63

section Sums

variable {l : List TxValues}

theorem totalIn_nonneg (nonneg : ∀ e ∈ l, e.Nonneg) : 0 ≤ totalIn l := by
  apply List.sum_nonneg
  intro x mem
  obtain ⟨e, entry, rfl⟩ := List.mem_map.mp mem
  exact (nonneg e entry).valueIn

theorem totalOut_nonneg (nonneg : ∀ e ∈ l, e.Nonneg) : 0 ≤ totalOut l := by
  apply List.sum_nonneg
  intro x mem
  obtain ⟨e, entry, rfl⟩ := List.mem_map.mp mem
  exact (nonneg e entry).valueOut

theorem totalBurned_nonneg (nonneg : ∀ e ∈ l, e.Nonneg) : 0 ≤ totalBurned l := by
  apply List.sum_nonneg
  intro x mem
  obtain ⟨e, entry, rfl⟩ := List.mem_map.mp mem
  exact (nonneg e entry).burned

theorem partial_bounds {values : List Int} (nonneg : ∀ x ∈ values, 0 ≤ x) :
    ∀ x ∈ values.scanl (· + ·) 0, 0 ≤ x ∧ x ≤ values.sum := by
  intro x mem
  have bounds := scanl_bounds id (fun _ => 0) id 0 (fun e entry => by simpa using nonneg e entry) x
    (by simpa using mem)
  simpa using bounds

theorem entry_le_total (nonneg : ∀ e ∈ l, e.Nonneg) (mem : e ∈ l) : e.valueIn ≤ totalIn l ∧ e.valueOut ≤ totalOut l := by
  have ins : ∀ x ∈ l.map TxValues.valueIn, 0 ≤ x := by
    intro x h
    obtain ⟨d, entry, rfl⟩ := List.mem_map.mp h
    exact (nonneg d entry).valueIn
  have outs : ∀ x ∈ l.map TxValues.valueOut, 0 ≤ x := by
    intro x h
    obtain ⟨d, entry, rfl⟩ := List.mem_map.mp h
    exact (nonneg d entry).valueOut
  exact ⟨List.single_le_sum ins _ (List.mem_map_of_mem mem), List.single_le_sum outs _ (List.mem_map_of_mem mem)⟩

theorem txSums_bounds {e : TxValues} (nonneg : e.Nonneg) :
    ∀ x ∈ e.sums, -e.valueOut ≤ x ∧ x ≤ max e.valueIn e.valueOut := by
  intro x mem
  have ins := nonneg.valueIn
  have outs := nonneg.valueOut
  rw [TxValues.sums, List.mem_append, List.mem_append] at mem
  rcases mem with (mem | mem) | mem
  · have := partial_bounds nonneg.ins x mem
    unfold TxValues.valueIn at *
    omega
  · have := partial_bounds nonneg.outs x mem
    unfold TxValues.valueOut at *
    omega
  · split at mem
    · obtain rfl := List.mem_singleton.mp mem
      omega
    · cases mem

theorem runningFees_bounds (nonneg : ∀ e ∈ l, e.Nonneg) :
    ∀ x ∈ (l.map TxValues.fee).scanl (· + ·) 0, -totalOut l ≤ x ∧ x ≤ totalIn l := by
  intro x mem
  have bounds := scanl_bounds TxValues.fee TxValues.valueOut TxValues.valueIn 0 (fun e entry => by
    have fee := (nonneg e entry).fee
    exact ⟨fee.1, fee.2, (nonneg e entry).valueOut, (nonneg e entry).valueIn⟩) x mem
  unfold totalOut totalIn
  omega

theorem totalFees_bounds (nonneg : ∀ e ∈ l, e.Nonneg) : -totalOut l ≤ totalFees l ∧ totalFees l ≤ totalIn l := by
  induction l with
  | nil => simp [totalOut, totalFees, totalIn]
  | cons e l ih =>
    have rest := ih fun d mem => nonneg d (by simp [mem])
    have fee := (nonneg e (by simp)).fee
    simp only [totalOut, totalFees, totalIn, List.map_cons, List.sum_cons] at *
    omega

theorem minted_bounds (nonneg : ∀ e ∈ l, e.Nonneg) :
    -totalIn l ≤ totalOut l - totalIn l + totalFees l ∧ totalOut l - totalIn l + totalFees l ≤ totalOut l := by
  induction l with
  | nil => simp [totalOut, totalFees, totalIn]
  | cons e l ih =>
    have rest := ih fun d mem => nonneg d (by simp [mem])
    have ins := (nonneg e (by simp)).valueIn
    have outs := (nonneg e (by simp)).valueOut
    have fee : e.fee = e.valueIn - e.valueOut ∨ e.fee = 0 := by
      unfold TxValues.fee
      split <;> simp
    simp only [totalOut, totalFees, totalIn, List.map_cons, List.sum_cons] at *
    omega

theorem blockSums_fit {block : CBlock} (nonneg : ∀ e ∈ l, e.Nonneg)
    (outs : totalOut l = (block.vtx.map CTransaction.valueOut).sum) (supply : 0 ≤ nMoneySupplyPrev) (subsidy : 0 ≤ nBlockValue)
    (covered : totalIn l ≤ nMoneySupplyPrev + totalOut l) (fits : BlockFits nMoneySupplyPrev nBlockValue block l) :
    ∀ x ∈ blockSums nMoneySupplyPrev nBlockValue block.isProofOfWork l, FitsInt64 x := by
  have total := fits.supply
  rw [← outs] at total
  have in_ := totalIn_nonneg nonneg
  have out := totalOut_nonneg nonneg
  have fees := totalFees_bounds nonneg
  have minted := minted_bounds nonneg
  intro x mem
  simp only [blockSums, List.mem_append] at mem
  unfold FitsInt64
  rcases mem with ((((mem | mem) | mem) | mem) | mem) | mem
  · obtain ⟨e, entry, mem⟩ := List.mem_flatMap.mp mem
    have bounds := txSums_bounds (nonneg e entry) x mem
    have entries := entry_le_total nonneg entry
    omega
  · have bounds := partial_bounds (fun y h => by
      obtain ⟨e, entry, rfl⟩ := List.mem_map.mp h
      exact (nonneg e entry).valueIn) x mem
    unfold totalIn at *
    omega
  · have bounds := partial_bounds (fun y h => by
      obtain ⟨e, entry, rfl⟩ := List.mem_map.mp h
      exact (nonneg e entry).valueOut) x mem
    unfold totalOut at *
    omega
  · have bounds := runningFees_bounds nonneg x mem
    omega
  · simp only [List.mem_cons, List.not_mem_nil, or_false] at mem
    omega
  · split at mem
    · rename_i pow
      have reward := fits.reward pow
      obtain rfl := List.mem_singleton.mp mem
      omega
    · cases mem

end Sums

theorem minted_le_of_limited {s : ChainState} (limited : s.valueLimited block = true)
    (valid : s.isBlockValueValid block nExpectedValue nMinted = true) : nMinted ≤ nExpectedValue := by
  unfold ChainState.valueLimited at limited
  unfold ChainState.isBlockValueValid at valid
  cases tip : s.tip with
  | none => simp [tip] at limited
  | some pindexPrev =>
    simp only [tip] at limited valid
    split at limited
    · rename_i unsynced
      rw [if_pos unsynced, if_neg (by simpa using limited)] at valid
      simpa using valid
    · rename_i synced
      rw [if_neg synced] at valid
      split at limited
      · rename_i disabled
        rw [if_pos disabled] at valid
        simpa using valid
      · rename_i enabled
        rw [if_neg enabled, if_neg (by simpa using limited)] at valid
        simpa using valid

structure SupplyStep (s : ChainState) (block : CBlock) (pprev : CBlockIndex) (c : Connected) (burned : Int)
    (l : List TxValues) : Prop where
  conserved : c.nMoneySupply = c.view.totalUnspent + (burned + (block.vtx.map CTransaction.valueBurned).sum)
  limited : ({ s with budget := c.budget } : ChainState).valueLimited block = true →
    c.nMoneySupply - pprev.nMoneySupply ≤
      s.network.getBlockValue pprev.nHeight - if block.isProofOfStake then totalFees l else 0
  fits : ∀ x ∈ blockSums pprev.nMoneySupply (s.network.getBlockValue pprev.nHeight) block.isProofOfWork l, FitsInt64 x

theorem BlockConnected.supplyStep {s : ChainState} {view : CoinsView} (sound : view.Sound) (free : block.ZerocoinFree)
    (conserved : pprev.nMoneySupply = view.totalUnspent + burned) (burnedNonneg : 0 ≤ burned)
    (fits : BlockFits pprev.nMoneySupply (s.network.getBlockValue pprev.nHeight) block (blockValues pindex.nHeight view block.vtx))
    (connected : BlockConnected s checks block pindex pprev view c st) :
    c.view.Sound ∧ 0 ≤ burned + (block.vtx.map CTransaction.valueBurned).sum ∧
      SupplyStep s block pprev c burned (blockValues pindex.nHeight view block.vtx) := by
  have start : ({} : BlockTotals).Match 0 0 0 := ⟨rfl, rfl, rfl⟩
  obtain ⟨sound', nonneg, totals, total, outs, burns⟩ := connectTxs_values free sound start connected.transactions
  simp only [zero_add] at totals
  replace total : st.view.totalUnspent = view.totalUnspent - totalIn (blockValues pindex.nHeight view block.vtx) +
    totalOut (blockValues pindex.nHeight view block.vtx) - totalBurned (blockValues pindex.nHeight view block.vtx) := total
  generalize blockValues pindex.nHeight view block.vtx = l at *
  have unspent : c.view.totalUnspent = st.view.totalUnspent := by rw [connected.view_eq]; rfl
  have soundLast : c.view.Sound := by rw [connected.view_eq]; exact ⟨sound'.clean, sound'.nonneg⟩
  have before := CoinsView.totalUnspent_nonneg sound
  have after := CoinsView.totalUnspent_nonneg sound'
  have burnedBlock := totalBurned_nonneg nonneg
  have fitAll := blockSums_fit nonneg outs (by omega) (s.network.getBlockValue_nonneg _) (by omega) fits
  have fitsLast : ∀ x ∈ [pprev.nMoneySupply + totalOut l, pprev.nMoneySupply + totalOut l - totalIn l,
      totalOut l - totalIn l, totalOut l - totalIn l + totalFees l], FitsInt64 x := by
    intro x mem
    apply fitAll
    simp only [blockSums, List.mem_append]
    exact Or.inl (Or.inr mem)
  have supply : c.nMoneySupply = pprev.nMoneySupply + totalOut l - totalIn l := by
    rw [connected.supply, totals.nValueOut, totals.nValueIn, int64_int64_sub, int64_sub_int64,
      ← int64_int64_sub, int64_add_int64, int64_int64_sub]
    exact int64_of_fits (fitsLast _ (by simp))
  refine ⟨soundLast, by omega, by omega, fun limited => ?_, fitAll⟩
  have valid := minted_le_of_limited limited connected.value
  have growth : c.nMoneySupply - pprev.nMoneySupply = totalOut l - totalIn l := by omega
  rw [totals.nFees, growth, int64_int64_add, int64_add_int64, int64_of_fits (fitsLast _ (by simp)), int64_add_int64] at valid
  cases stake : block.isProofOfStake with
  | true =>
    simp only [CBlock.isProofOfWork, stake, Bool.not_true, Bool.false_eq_true, if_false] at valid
    simp only [if_true]
    omega
  | false =>
    have pow : block.isProofOfWork = true := by simp [CBlock.isProofOfWork, stake]
    have reward : FitsInt64 (s.network.getBlockValue pprev.nHeight + totalFees l) := by
      apply fitAll
      simp [blockSums, pow]
    rw [if_pos pow, int64_of_fits reward] at valid
    simp only [Bool.false_eq_true, if_false]
    omega

theorem BlockConnected.totalOut_eq (connected : BlockConnected s checks block pindex pprev view c st) (sound : view.Sound)
    (free : block.ZerocoinFree) :
    totalOut (blockValues pindex.nHeight view block.vtx) = (block.vtx.map CTransaction.valueOut).sum := by
  have start : ({} : BlockTotals).Match 0 0 0 := ⟨rfl, rfl, rfl⟩
  exact (connectTxs_values free sound start connected.transactions).2.2.2.2.1

theorem SupplyStep.blockFits (step : SupplyStep s block pprev c burned l)
    (outs : totalOut l = (block.vtx.map CTransaction.valueOut).sum) :
    BlockFits pprev.nMoneySupply (s.network.getBlockValue pprev.nHeight) block l := by
  constructor
  · rw [← outs]
    exact (step.fits _ (by simp [blockSums])).2
  · intro pow
    exact (step.fits _ (by simp [blockSums, pow])).2

/-- A chain that `ConnectBlock` accepted block by block from the genesis block on, whose sums fit: the
view and the index entry of its last block, and the value of the unspendable outputs so far. -/
inductive ConnectedChain : CoinsView → CBlockIndex → Int → Prop
  | genesis {s : ChainState} {checks : Checks} {block : CBlock} {pindex : CBlockIndex} {c : Connected}
      (first : block.hash = s.hashGenesisBlock) (fresh : pindex.nMoneySupply = 0)
      (accepted : connectBlock s checks block pindex none {} = .ok c) :
      ConnectedChain c.view { pindex with nMoneySupply := c.nMoneySupply } 0
  | block {view : CoinsView} {pprev : CBlockIndex} {burned : Int} {s : ChainState} {checks : Checks} {block : CBlock}
      {pindex : CBlockIndex} {c : Connected} (before : ConnectedChain view pprev burned)
      (later : block.hash ≠ s.hashGenesisBlock) (height : pindex.nHeight = pprev.nHeight + 1) (free : block.ZerocoinFree)
      (accepted : connectBlock s checks block pindex (some pprev) view = .ok c)
      (fits : BlockFits pprev.nMoneySupply (s.network.getBlockValue pprev.nHeight) block
        (blockValues pindex.nHeight view block.vtx)) :
      ConnectedChain c.view { pindex with nMoneySupply := c.nMoneySupply }
        (burned + (block.vtx.map CTransaction.valueBurned).sum)

theorem ConnectedChain.conserved (chain : ConnectedChain view pindex burned) :
    view.Sound ∧ 0 ≤ burned ∧ pindex.nMoneySupply = view.totalUnspent + burned := by
  induction chain with
  | genesis first fresh accepted =>
    obtain ⟨_, empty, _, supply⟩ := connectBlock_genesis first accepted
    rw [empty]
    refine ⟨CoinsView.sound_empty _, le_rfl, ?_⟩
    simp only [supply, fresh]
    rfl
  | block _ later _ free accepted fits ih =>
    obtain ⟨sound, nonneg, conserved⟩ := ih
    obtain ⟨st, connected⟩ := connectBlock_ok later accepted
    obtain ⟨sound', nonneg', step⟩ := connected.supplyStep sound free conserved nonneg fits
    exact ⟨sound', nonneg', step.conserved⟩

/-- After a chain whose sums fit, the supply is what is unspent and what was burned, and the next block
keeps it so exactly when its sums fit too. -/
theorem supply_conserved_while_sums_fit {view : CoinsView} {pprev : CBlockIndex} {burned : Int}
    (chain : ConnectedChain view pprev burned) :
    pprev.nMoneySupply = view.totalUnspent + burned ∧
    ∀ (s : ChainState) (checks : Checks) (block : CBlock) (pindex : CBlockIndex) (c : Connected),
      block.hash ≠ s.hashGenesisBlock → pindex.nHeight = pprev.nHeight + 1 → block.ZerocoinFree →
      connectBlock s checks block pindex (some pprev) view = .ok c →
      (SupplyStep s block pprev c burned (blockValues pindex.nHeight view block.vtx) ↔
        BlockFits pprev.nMoneySupply (s.network.getBlockValue pprev.nHeight) block
          (blockValues pindex.nHeight view block.vtx)) := by
  obtain ⟨sound, nonneg, conserved⟩ := chain.conserved
  refine ⟨conserved, fun s checks block pindex c later _ free accepted => ⟨fun step => ?_, fun fits => ?_⟩⟩
  · obtain ⟨st, connected⟩ := connectBlock_ok later accepted
    exact step.blockFits (connected.totalOut_eq sound free)
  · obtain ⟨st, connected⟩ := connectBlock_ok later accepted
    exact (connected.supplyStep sound free conserved nonneg fits).2.2

section Relays

def entryId (n : Nat) : uint256 := BitVec.ofNat 256 n

theorem entryId_ne (left : m < 2 ^ 32) (right : n < 2 ^ 32) (other : m ≠ n) : entryId m ≠ entryId n := by
  intro same
  have := congrArg BitVec.toNat same
  simp only [entryId, BitVec.toNat_ofNat] at this
  omega

def coinbaseAt (nHeight : Nat) : CTransaction :=
  mintTx (entryId (if nHeight = 1 then 100 else nHeight)) [payTo (if nHeight = 1 then 22000000 else 0)]

def relayTx (k : Nat) : CTransaction := spendTx (entryId (101 + k)) [⟨entryId (100 + k), 0⟩] [payTo 22000000]

def relayChecks : Checks := { passingChecks with blockSize := fun _ => 300000, getLegacySigOpCount := fun _ => 0 }

def entryAt (nHeight : Nat) : CBlockIndex :=
  { hash := entryId (1000000 + nHeight), nHeight, nMoneySupply := if nHeight = 0 then 0 else 22000000 * COIN }

def nodeOn (nHeight : Nat) : ChainState where
  network := .main
  hashGenesisBlock := entryId 1000000
  mapBlockIndex := (∅ : StdMap uint256 CBlockIndex).insert (entryAt nHeight).hash (entryAt nHeight)
  tip := some (entryAt nHeight)
  isInitialBlockDownload := true
  isSynced := true

def viewAt : Nat → CoinsView
  | 0 => { hashBlock := (entryAt 0).hash }
  | h + 1 => ((viewAt h).addOutputs (coinbaseAt (h + 1)) (h + 1)).setBestBlock (entryAt (h + 1)).hash

/-- The block of a height, with the premine passed on `n` times. -/
def relayBlock (nHeight n : Nat) : CBlock :=
  { hash := (entryAt nHeight).hash
    hashPrevBlock := (entryAt (nHeight - 1)).hash
    vtx := coinbaseAt nHeight :: (List.range n).map relayTx }

theorem coinbaseAt_nonneg (h : Nat) : ∀ o ∈ (coinbaseAt h).vout, 0 ≤ o.nValue := by
  unfold coinbaseAt
  split <;> simp [mintTx, payTo, COIN]

theorem viewAt_unused (later : h < n) (other : n ≠ 100) (big : n < 2 ^ 32) : (viewAt h).coinsAt (entryId n) = {} := by
  induction h with
  | zero => simp [viewAt, CoinsView.coinsAt]
  | succ h ih =>
    have step := CoinsView.coinsAt_addOutputs (coinbaseAt_nonneg (h + 1)) (viewAt h) (h + 1) (entryId n)
    have ne : entryId n ≠ (coinbaseAt (h + 1)).hash := by
      apply entryId_ne big
      · split <;> omega
      · split <;> omega
    rw [if_neg ne, ih (by omega)] at step
    exact step

theorem coinbaseAt_checked (h : Nat) (cold : Bool) : checkTransaction relayChecks .main (coinbaseAt h) false cold = .ok () := by
  unfold coinbaseAt
  split
  · cases cold <;> decide
  · cases cold <;> rfl

theorem coinbaseAt_isCoinBase (h : Nat) : (coinbaseAt h).isCoinBase = true := rfl

theorem relayTx_isCoinBase (k : Nat) : (relayTx k).isCoinBase = false := by
  simp [CTransaction.isCoinBase, relayTx, spendTx, COutPoint.isNull]

theorem relayTx_isCoinStake (k : Nat) : (relayTx k).isCoinStake = false := by
  simp [CTransaction.isCoinStake, relayTx, spendTx, COutPoint.isNull]

theorem relayTx_checked (k : Nat) : checkTransaction relayChecks .main (relayTx k) false true = .ok () := by
  have outputs : checkOutputs .main (relayTx k) true 0 (relayTx k).vout = .ok () := rfl
  have size : relayChecks.txSize (relayTx k) = 250 := rfl
  rw [checkTransaction, outputs, size]
  simp [checkInputShape, relayTx_isCoinBase, MAX_ZEROCOIN_TX_SIZE]
  simp [relayTx, spendTx, checkDuplicateInputs]

theorem relayBlock_isProofOfStake (h n : Nat) : (relayBlock h n).isProofOfStake = false := by
  cases n with
  | zero => rfl
  | succ n =>
    simp [CBlock.isProofOfStake, relayBlock, List.range_succ_eq_map, relayTx_isCoinStake]

theorem relayBlock_checked (h : Nat) (small : n < 100000) :
    (nodeOn h).checkBlock relayChecks (relayBlock (h + 1) n) true = .ok {} := by
  have unchecked : (nodeOn h).paymentsChecked (relayBlock (h + 1) n) = none := by
    simp [ChainState.paymentsChecked, nodeOn]
  have shape : ChainState.checkBlockShape (relayBlock (h + 1) n) = .ok () := by
    simp only [ChainState.checkBlockShape, relayBlock_isProofOfStake, Bool.false_and, Checked.refuse_false, Checked.ok_bind]
    have others : ((List.range n).map relayTx).any CTransaction.isCoinBase = false := by simp [relayTx_isCoinBase]
    simp only [relayBlock, coinbaseAt_isCoinBase, others, Bool.not_true, Checked.refuse_false, Checked.ok_bind]
  have transactions : Checked.all (fun tx => checkTransaction relayChecks .main tx false true) (relayBlock (h + 1) n).vtx = .ok () := by
    apply Checked.all_eq_ok
    intro tx mem
    rcases List.mem_cons.mp mem with rfl | mem
    · exact coinbaseAt_checked _ _
    · obtain ⟨k, _, rfl⟩ := List.mem_map.mp mem
      exact relayTx_checked k
  have sigops : ((relayBlock (h + 1) n).vtx.map relayChecks.getLegacySigOpCount).sum = 0 := by
    simp [relayChecks]
  have early : decide (((relayBlock (h + 1) n).nTime : Int) > (nodeOn h).network.consensus.ZC_TimeStart) = false := rfl
  have payments : (nodeOn h).checkBlockPayments relayChecks (relayBlock (h + 1) n) = .ok {} := by
    rw [ChainState.checkBlockPayments, unchecked]
    rfl
  have short : ((relayBlock (h + 1) n).vtx.isEmpty || decide ((relayBlock (h + 1) n).vtx.length > MAX_BLOCK_SIZE_CURRENT) ||
      decide (relayChecks.blockSize (relayBlock (h + 1) n) > MAX_BLOCK_SIZE_CURRENT)) = false := by
    simp [relayBlock, relayChecks, MAX_BLOCK_SIZE_CURRENT]
    omega
  have unlocked : (nodeOn h).checkLockedInputs (relayBlock (h + 1) n) = .ok () := rfl
  have net : (nodeOn h).network = .main := rfl
  rw [ChainState.checkBlock, short, shape, unlocked, payments, early, unchecked, sigops]
  simp only [Checked.refuse_false, Checked.ok_bind, net, Option.isNone_none, Bool.true_or, transactions]
  rfl

/-- The premine has been passed on `k` times on a chain of height `h`. -/
structure RelayState (h k : Nat) (st : ConnectState) : Prop where
  best : st.view.hashBlock = (entryAt h).hash
  unspent : (st.view.coinsAt (entryId (100 + k))).vout = [payTo 22000000]
  mature : (((st.view.coinsAt (entryId (100 + k))).fCoinBase || (st.view.coinsAt (entryId (100 + k))).fCoinStake) &&
    decide ((h : Int) + 1 - (st.view.coinsAt (entryId (100 + k))).nHeight < 49)) = false
  fresh : ∀ n, 100 + k < n → n < 2 ^ 32 → st.view.coinsAt (entryId n) = {}
  sigOps : st.totals.nSigOps = 0
  fees : st.totals.nFees = 0
  balanced : st.totals.nValueIn = st.totals.nValueOut

theorem relayTx_free (k : Nat) : (relayTx k).containsZerocoins = false := by
  simp [CTransaction.containsZerocoins, CTransaction.hasZerocoinSpendInputs, CTransaction.hasZerocoinPublicSpendInputs,
    CTransaction.hasZerocoinMintOutputs, relayTx, spendTx, payTo, CTxIn.isZerocoinSpend, CTxOut.isZerocoinMint, CScript.isZerocoinMint,
    CScript.isZerocoinSpend, CScript.startsWithOpcode, OP_ZEROCOINMINT]

theorem relayTx_inputs (relay : RelayState h k st) (chain : ctx.chain = nodeOn h) (checks : ctx.checks = relayChecks) :
    connectInputs ctx st.view { st.totals with nSigOps := 0 } (relayTx k) =
      .ok { st.totals with nSigOps := 0, nValueIn := int64 (st.totals.nValueIn + 22000000 * COIN) } := by
  have entry := relay.unspent
  have available : st.view.isOutputAvailable ⟨entryId (100 + k), 0⟩ = true := by
    simp only [CoinsView.isOutputAvailable, CCoins.isAvailable, entry]
    rfl
  have haveInputs : st.view.haveInputs (relayTx k) = true := by
    simp [CoinsView.haveInputs, relayTx, spendTx, available]
  have output : st.view.getOutputFor { prevout := ⟨entryId (100 + k), 0⟩ } = some (payTo 22000000) := by
    simp [CoinsView.getOutputFor, available, entry]
  have value : st.view.getValueIn (relayTx k) = some (22000000 * COIN) := by
    rw [CoinsView.getValueIn, relayTx_isCoinBase]
    simp only [relayTx, spendTx, List.map_cons, List.map_nil, List.foldlM_cons, List.foldlM_nil, output]
    rfl
  have indexed : (nodeOn h).mapBlockIndex.lookup st.view.hashBlock = some (entryAt h) := by
    rw [relay.best]
    exact (StdMap.lookup_insert_ite _ _ _ _).trans (if_pos rfl)
  have coins : checkInputCoins .main st.view ((entryAt h).nHeight + 1) 0 (relayTx k).vin = .ok (22000000 * COIN) := by
    have mature := relay.mature
    simp only [relayTx, spendTx, List.map_cons, List.map_nil, checkInputCoins, entry]
    rw [show ((entryAt h).nHeight : Int) = h from rfl,
      show ((Network.main.consensus.nCoinbaseMaturity : Nat) : Int) = 49 from rfl, mature]
    rfl
  have fee : checkFee .main (relayTx k) (22000000 * COIN) = .ok () := by
    rw [checkFee, relayTx_isCoinStake]
    rfl
  have scripts : ∀ cltv, checkScripts relayChecks st.view (relayTx k) cltv = true := fun _ => rfl
  have inputs : checkInputs ctx.chain ctx.checks st.view (relayTx k) ctx.fScriptChecks ctx.fCLTVIsActivated = .ok () := by
    rw [checkInputs, relayTx_isCoinBase, CTransaction.spendInputs_false (relayTx_free k), chain, checks, haveInputs, indexed]
    simp only [orAbort, scripts]
    rw [show (nodeOn h).network = Network.main from rfl]
    simp [coins, fee]
  have outputs : (relayTx k).vin.mapM st.view.getOutputFor = some [payTo 22000000] := by
    simp [relayTx, spendTx, output]
  have fees : addFee st.totals.nFees (22000000 * COIN) (relayTx k) = .ok st.totals.nFees := by
    rw [addFee, relayTx_isCoinStake, relay.fees]
    rfl
  rw [connectInputs, haveInputs, outputs, value]
  simp only [orAbort, Checked.ok_bind, fees, inputs]
  rfl

theorem relayTx_spends (relay : RelayState h k st) (small : k < 2 ^ 31) (nHeight : Nat) :
    ∃ w txundo, st.view.updateCoins (relayTx k) nHeight = some (w, txundo) ∧ w.hashBlock = st.view.hashBlock ∧
      w.coinsAt (entryId (101 + k)) = CCoins.fromTx (relayTx k) nHeight ∧
      ∀ n, 101 + k < n → n < 2 ^ 32 → w.coinsAt (entryId n) = {} := by
  have entry := relay.unspent
  have positive : ∀ o ∈ (relayTx k).vout, 0 ≤ o.nValue := by simp [relayTx, spendTx, payTo, COIN]
  obtain ⟨coins, undo, spent⟩ : ∃ coins undo, (st.view.coinsAt (entryId (100 + k))).spend ⟨entryId (100 + k), 0⟩ = some (coins, undo) := by
    rw [CCoins.spend, entry]
    exact ⟨_, _, rfl⟩
  let mid := st.view.modifyCoins (entryId (100 + k)) fun _ => coins
  have update : st.view.updateCoins (relayTx k) nHeight = some (mid.addOutputs (relayTx k) nHeight, [undo]) := by
    rw [CoinsView.updateCoins, relayTx_isCoinBase, CTransaction.spendInputs_false (relayTx_free k), if_pos (by simp)]
    have input : st.view.spend ⟨entryId (100 + k), 0⟩ = some (mid, undo) := by simp [CoinsView.spend, spent, mid]
    simp [relayTx, spendTx, CoinsView.spendInputs, input]
  refine ⟨_, _, update, rfl, ?_, fun n above bound => ?_⟩
  · rw [CoinsView.coinsAt_addOutputs positive]
    exact if_pos rfl
  · have away : entryId n ≠ (relayTx k).hash := entryId_ne bound (by omega) (by omega)
    rw [CoinsView.coinsAt_addOutputs positive, if_neg away, CoinsView.coinsAt_modifyCoins,
      if_neg (entryId_ne bound (by omega) (by omega))]
    exact relay.fresh n (by omega) bound

theorem relayTx_connects (relay : RelayState h k st) (chain : ctx.chain = nodeOn h) (checks : ctx.checks = relayChecks)
    (small : k < 2 ^ 31) : ∃ st', connectTx ctx i st (relayTx k) = .ok st' ∧ RelayState h (k + 1) st' := by
  have unused : ((st.view.accessCoins (relayTx k).hash).any fun coins => !coins.isPruned) = false := by
    have fresh := relay.fresh (101 + k) (by omega) (by omega)
    have hash : (relayTx k).hash = entryId (101 + k) := rfl
    rw [CoinsView.isPruned_coinsAt, hash, fresh]
    rfl
  obtain ⟨w, txundo, update, best, entry, fresh⟩ := relayTx_spends relay small ctx.nHeight
  have free := relayTx_free k
  have inputs := relayTx_inputs relay chain checks
  have value : (relayTx k).getValueOut = some (22000000 * COIN) := rfl
  have sigOps : st.totals.nSigOps + ctx.checks.getLegacySigOpCount (relayTx k) = 0 := by
    rw [relay.sigOps, checks]
    rfl
  have fields := relay.fees
  refine ⟨{ view := w
            vtxundo := if i = 0 then st.vtxundo else st.vtxundo ++ [txundo]
            totals := { st.totals with
                        nSigOps := 0
                        nValueIn := int64 (st.totals.nValueIn + 22000000 * COIN)
                        nValueOut := int64 (st.totals.nValueOut + 22000000 * COIN) } }, ?_, ?_⟩
  · simp only [connectTx, unused, sigOps, connectTxInputs, CTransaction.spendInputs_false free,
      CTransaction.mintOutputs_false free, relayTx_isCoinBase, free, inputs, value, update, Bool.false_and, Bool.and_false,
      Bool.not_false, Bool.false_eq_true, if_true, if_false, Checked.refuse_false, Checked.ok_bind, orAbort]
    rfl
  · have outputs : (CCoins.fromTx (relayTx k) ctx.nHeight).vout = [payTo 22000000] := rfl
    have plain : ((CCoins.fromTx (relayTx k) ctx.nHeight).fCoinBase || (CCoins.fromTx (relayTx k) ctx.nHeight).fCoinStake) = false := by
      simp [CCoins.fromTx, CCoins.clearUnspendable, CCoins.cleanup, relayTx_isCoinBase, relayTx_isCoinStake]
    have next : entryId (100 + (k + 1)) = entryId (101 + k) := congrArg entryId (by omega)
    refine ⟨best.trans relay.best, ?_, ?_, fun n above bound => fresh n (by omega) bound, rfl, relay.fees, ?_⟩
    · rw [next, entry, outputs]
    · rw [next, entry, plain, Bool.false_and]
    · simp only [relay.balanced]

theorem relayTxs_connect (ctx : ConnectContext) (chain : ctx.chain = nodeOn h) (checks : ctx.checks = relayChecks) (n : Nat)
    (relay : RelayState h k st) (small : k + n < 2 ^ 31) :
    ∃ st', connectTxs ctx i st ((List.range' k n).map relayTx) = .ok st' ∧ RelayState h (k + n) st' := by
  induction n generalizing i k st with
  | zero => exact ⟨st, rfl, relay⟩
  | succ n ih =>
    obtain ⟨mid, first, relay'⟩ := relayTx_connects (i := i) relay chain checks (by omega)
    obtain ⟨st', rest, last⟩ := ih (i := i + 1) relay' (by omega)
    refine ⟨st', ?_, by rwa [show k + (n + 1) = k + 1 + n by omega]⟩
    rw [List.range'_succ, List.map_cons, connectTxs, first, Checked.ok_bind, rest]

/-- The context in which the block after height `h` is connected. -/
def relayContext (h : Nat) : ConnectContext :=
  { chain := nodeOn h, checks := relayChecks, nTime := 0, nHeight := h + 1, fScriptChecks := true, fCLTVIsActivated := false }

def newEntry (nHeight : Nat) : CBlockIndex := { hash := (entryAt nHeight).hash, nHeight }

theorem coinbaseAt_connects (ctx : ConnectContext) (low : h < 99) (checks : ctx.checks = relayChecks)
    (height : ctx.nHeight = h + 1) :
    connectTx ctx 0 { view := viewAt h } (coinbaseAt (h + 1)) =
      .ok { view := (viewAt h).addOutputs (coinbaseAt (h + 1)) (h + 1)
            totals := { nValueOut := if h = 0 then 22000000 * COIN else 0 } } := by
  have unused : ((viewAt h).accessCoins (coinbaseAt (h + 1)).hash |>.any fun coins => !coins.isPruned) = false := by
    rw [CoinsView.isPruned_coinsAt]
    cases h with
    | zero => rfl
    | succ h =>
      rw [show (coinbaseAt (h + 1 + 1)).hash = entryId (h + 1 + 1) by simp [coinbaseAt, mintTx],
        viewAt_unused (by omega) (by omega) (by omega)]
      rfl
  have free : (coinbaseAt (h + 1)).containsZerocoins = false := rfl
  have value : (coinbaseAt (h + 1)).getValueOut = some (if h = 0 then 22000000 * COIN else 0) := by
    cases h <;> rfl
  have update : (viewAt h).updateCoins (coinbaseAt (h + 1)) (h + 1) =
      some ((viewAt h).addOutputs (coinbaseAt (h + 1)) (h + 1), []) := rfl
  simp only [connectTx, unused, checks, height, connectTxInputs, CTransaction.spendInputs_false free,
    CTransaction.mintOutputs_false free, coinbaseAt_isCoinBase, free, value, update, Bool.false_and, Bool.and_false,
    Bool.not_true, Bool.false_eq_true, if_false, Checked.refuse_false, Checked.ok_bind, orAbort]
  cases h <;> rfl

theorem relayBlock_accepted (st : ConnectState) (small : n < 100000) (low : h < 99)
    (best : (viewAt h).hashBlock = (entryAt h).hash)
    (transactions : connectTransactions (nodeOn h) relayChecks (relayBlock (h + 1) n) (newEntry (h + 1)) (entryAt h) (viewAt h) = .ok st)
    (fees : st.totals.nFees = 0)
    (value : int64 (int64 ((entryAt h).nMoneySupply + st.totals.nValueOut) - st.totals.nValueIn) = 22000000 * COIN) :
    connectBlock (nodeOn h) relayChecks (relayBlock (h + 1) n) (newEntry (h + 1)) (some (entryAt h)) (viewAt h) =
      .ok { view := st.view.setBestBlock (entryAt (h + 1)).hash, blockundo := some st.vtxundo
            nMoneySupply := 22000000 * COIN, budget := {} } := by
  have other : (relayBlock (h + 1) n).hash ≠ (nodeOn h).hashGenesisBlock := entryId_ne (by omega) (by omega) (by omega)
  have work : (relayBlock (h + 1) n).isProofOfWork = true := by simp [CBlock.isProofOfWork, relayBlock_isProofOfStake]
  have early : decide ((newEntry (h + 1)).nHeight > (nodeOn h).network.consensus.height_last_PoW) = false := by
    have : (nodeOn h).network.consensus.height_last_PoW = 100 := rfl
    simp only [newEntry, this]
    simp
    omega
  have limit : ∀ expected minted, minted ≤ expected →
      ({ nodeOn h with budget := {} } : ChainState).isBlockValueValid (relayBlock (h + 1) n) expected minted = true :=
    fun _ _ bound => decide_eq_true bound
  have minted : int64 (int64 (22000000 * COIN - (entryAt h).nMoneySupply) + 0) ≤
      int64 ((nodeOn h).network.getBlockValue (entryAt h).nHeight + 0) := by
    cases h with
    | zero => decide
    | succ h =>
      have later : Network.main.getBlockValue ((h + 1 : Nat) : Int) = 3229999999 := by
        rw [Network.getBlockValue, if_neg (by simp), if_neg (by omega)]
      have supply : (entryAt (h + 1)).nMoneySupply = 22000000 * COIN := by simp [entryAt]
      rw [supply, show (nodeOn (h + 1)).network.getBlockValue (entryAt (h + 1)).nHeight = 3229999999 from later]
      decide
  rw [connectBlock, relayBlock_checked h small]
  simp only [Checked.ok_bind, Option.map_some, Option.getD_some, best, ne_eq, not_true_eq_false, decide_false, Checked.refuse_false,
    other, if_false, relayBlock_isProofOfStake, Bool.and_false, early, Bool.false_and, orAbort, transactions, value, fees, work, if_true]
  rw [limit _ _ minted]
  rfl

theorem viewAt_best (h : Nat) : (viewAt h).hashBlock = (entryAt h).hash := by
  cases h <;> rfl

theorem viewAt_premine (low : h < 100) (started : 0 < h) :
    (viewAt h).coinsAt (entryId 100) = CCoins.fromTx (coinbaseAt 1) 1 := by
  induction h with
  | zero => omega
  | succ h ih =>
    have step := CoinsView.coinsAt_addOutputs (coinbaseAt_nonneg (h + 1)) (viewAt h) (h + 1) (entryId 100)
    cases h with
    | zero => exact step.trans (if_pos rfl)
    | succ h =>
      have other : entryId 100 ≠ (coinbaseAt (h + 1 + 1)).hash := by
        apply entryId_ne (by omega)
        · split <;> omega
        · split <;> omega
      rw [if_neg other, ih (by omega) (by omega)] at step
      exact step

theorem relayState_start (mature : 49 ≤ h) (low : h < 99) :
    RelayState h 0
      { view := (viewAt h).addOutputs (coinbaseAt (h + 1)) (h + 1)
        totals := { nValueOut := if h = 0 then 22000000 * COIN else 0 } } := by
  have premine : ((viewAt h).addOutputs (coinbaseAt (h + 1)) (h + 1)).coinsAt (entryId 100) = CCoins.fromTx (coinbaseAt 1) 1 :=
    viewAt_premine (h := h + 1) (by omega) (by omega)
  refine ⟨viewAt_best h, ?_, ?_, fun n above bound => ?_, rfl, rfl, ?_⟩
  · rw [Nat.add_zero, premine]
    rfl
  · rw [Nat.add_zero, premine]
    have height : (CCoins.fromTx (coinbaseAt 1) 1).nHeight = 1 := rfl
    rw [height]
    simp
    omega
  · exact viewAt_unused (h := h + 1) (by omega) (by omega) bound
  · simp
    omega

theorem coinbaseBlock_accepted (low : h < 99) :
    connectBlock (nodeOn h) relayChecks (relayBlock (h + 1) 0) (newEntry (h + 1)) (some (entryAt h)) (viewAt h) =
      .ok { view := viewAt (h + 1), blockundo := some [], nMoneySupply := 22000000 * COIN, budget := {} } := by
  refine relayBlock_accepted { view := (viewAt h).addOutputs (coinbaseAt (h + 1)) (h + 1)
                               totals := { nValueOut := if h = 0 then 22000000 * COIN else 0 } }
    (by omega) low (viewAt_best h) ?_ rfl ?_
  · simp only [connectTransactions, relayBlock, List.range_zero, List.map_nil, connectTxs]
    rw [coinbaseAt_connects _ low rfl rfl]
    rfl
  · cases h <;> rfl

theorem coinbaseBlock_fits (h : Nat) :
    BlockFits (entryAt h).nMoneySupply ((nodeOn h).network.getBlockValue (entryAt h).nHeight) (relayBlock (h + 1) 0)
      (blockValues (newEntry (h + 1)).nHeight (viewAt h) (relayBlock (h + 1) 0).vtx) := by
  have free : totalFees (blockValues (newEntry (h + 1)).nHeight (viewAt h) (relayBlock (h + 1) 0).vtx) = 0 := rfl
  refine ⟨?_, fun _ => ?_⟩
  · cases h with
    | zero => decide
    | succ h =>
      have supply : (entryAt (h + 1)).nMoneySupply = 22000000 * COIN := by simp [entryAt]
      have outs : ((relayBlock (h + 1 + 1) 0).vtx.map CTransaction.valueOut).sum = 0 := rfl
      rw [supply, outs]
      decide
  · rw [free]
    have bound : (nodeOn h).network.getBlockValue (entryAt h).nHeight ≤ 22000000 * COIN := by
      unfold Network.getBlockValue
      split
      · decide
      · split <;> decide
    have small : (22000000 * COIN : Int) < 2 ^ 63 := by decide
    omega

theorem relayBlock_free (h n : Nat) : (relayBlock h n).ZerocoinFree := by
  intro tx mem
  rcases List.mem_cons.mp mem with rfl | mem
  · rfl
  · obtain ⟨k, _, rfl⟩ := List.mem_map.mp mem
    exact relayTx_free k

theorem relayBlock_later (h n : Nat) (low : h < 100) : (relayBlock (h + 1) n).hash ≠ (nodeOn h).hashGenesisBlock :=
  entryId_ne (by omega) (by omega) (by omega)

theorem relayChain (low : h < 100) : ConnectedChain (viewAt h) (entryAt h) 0 := by
  induction h with
  | zero =>
    have accepted : connectBlock { network := .main, hashGenesisBlock := entryId 1000000 } relayChecks (relayBlock 0 0) (newEntry 0)
        none {} = .ok { view := viewAt 0, blockundo := none, nMoneySupply := 0, budget := {} } := rfl
    exact ConnectedChain.genesis rfl rfl accepted
  | succ h ih =>
    have extended := ConnectedChain.block (ih (by omega)) (relayBlock_later h 0 (by omega)) rfl (relayBlock_free _ _)
      (coinbaseBlock_accepted (by omega)) (coinbaseBlock_fits h)
    have burned : ((relayBlock (h + 1) 0).vtx.map CTransaction.valueBurned).sum = 0 := rfl
    rw [burned] at extended
    exact extended

theorem relayBlock_connects (small : n < 100000) :
    ∃ c, connectBlock (nodeOn 49) relayChecks (relayBlock 50 n) (newEntry 50) (some (entryAt 49)) (viewAt 49) = .ok c := by
  obtain ⟨st, relays, last⟩ :=
    relayTxs_connect (relayContext 49) (h := 49) rfl rfl n (i := 1) (relayState_start (by omega) (by omega)) (by omega)
  have transactions : connectTransactions (nodeOn 49) relayChecks (relayBlock 50 n) (newEntry 50) (entryAt 49) (viewAt 49) = .ok st := by
    have first := coinbaseAt_connects (relayContext 49) (h := 49) (by omega) rfl rfl
    rw [← List.range_eq_range'] at relays
    exact (congrArg (· >>= fun st => connectTxs _ 1 st ((List.range n).map relayTx)) first).trans relays
  refine ⟨_, relayBlock_accepted st small (by omega) (viewAt_best 49) transactions last.fees ?_⟩
  rw [last.balanced, int64_int64_sub]
  rw [Int.add_sub_cancel]
  rfl

theorem relayBlock_valueOut (n : Nat) : ((relayBlock 50 n).vtx.map CTransaction.valueOut).sum = n * (22000000 * COIN) := by
  have each : CTransaction.valueOut ∘ relayTx = fun _ => 22000000 * COIN := rfl
  have coinbase : (coinbaseAt 50).valueOut = 0 := rfl
  simp [relayBlock, each, coinbase]

theorem premine_relayed_once :
    (entryAt 49).nMoneySupply = (viewAt 49).totalUnspent + 0 ∧
    ∃ c, connectBlock (nodeOn 49) relayChecks (relayBlock 50 1) (newEntry 50) (some (entryAt 49)) (viewAt 49) = .ok c ∧
      SupplyStep (nodeOn 49) (relayBlock 50 1) (entryAt 49) c 0
        (blockValues (newEntry 50).nHeight (viewAt 49) (relayBlock 50 1).vtx) := by
  obtain ⟨conserved, next⟩ := supply_conserved_while_sums_fit (relayChain (h := 49) (by omega))
  obtain ⟨c, accepted⟩ := relayBlock_connects (n := 1) (by omega)
  have fees : totalFees (blockValues 50 (viewAt 49) (relayBlock 50 1).vtx) = 0 := by decide
  refine ⟨conserved, c, accepted, (next _ _ _ _ _ (relayBlock_later 49 1 (by omega)) rfl (relayBlock_free 50 1) accepted).mpr
    ⟨by decide, fun _ => ?_⟩⟩
  rw [show (newEntry 50).nHeight = 50 from rfl, fees]
  decide

/-- Passing the premine on in one block often enough takes the sum of its outputs out of the range. -/
theorem relays_leave_int64 :
    ConnectedChain (viewAt 49) (entryAt 49) 0 ∧ (relayBlock 50 4193).hash ≠ (nodeOn 49).hashGenesisBlock ∧
      (relayBlock 50 4193).ZerocoinFree ∧
      (∃ c, connectBlock (nodeOn 49) relayChecks (relayBlock 50 4193) (newEntry 50) (some (entryAt 49)) (viewAt 49) = .ok c) ∧
      ∃ x ∈ blockSums (entryAt 49).nMoneySupply ((nodeOn 49).network.getBlockValue (entryAt 49).nHeight)
        (relayBlock 50 4193).isProofOfWork (blockValues (newEntry 50).nHeight (viewAt 49) (relayBlock 50 4193).vtx),
        ¬FitsInt64 x := by
  have chain := relayChain (h := 49) (by omega)
  have later := relayBlock_later 49 4193 (by omega)
  have free := relayBlock_free 50 4193
  obtain ⟨c, accepted⟩ := relayBlock_connects (n := 4193) (by omega)
  refine ⟨chain, later, free, ⟨c, accepted⟩,
    (entryAt 49).nMoneySupply + totalOut (blockValues (newEntry 50).nHeight (viewAt 49) (relayBlock 50 4193).vtx), ?_, ?_⟩
  · simp [blockSums]
  · obtain ⟨st, connected⟩ := connectBlock_ok later accepted
    rw [connected.totalOut_eq chain.conserved.1 free]
    rw [relayBlock_valueOut]
    unfold FitsInt64
    decide

end Relays
end SchillingCoin
