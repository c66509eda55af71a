import SchillingCoin.Mempool.Accept
import SchillingCoin.Validation.Undo

/-!
The memory pool across changes of the chain, after `ConnectTip` and `DisconnectTip` in `main.cpp`:
every input of the pool stays available in the coins view or offered by another transaction of the pool.
-/

namespace SchillingCoin

open Checked (refuse)

variable {tx : CTransaction} {ctx : ConnectContext} {i nHeight : Nat} {st st' : ConnectState}
  {s : ChainState} {checks : Checks} {block : CBlock} {pindexNew : CBlockIndex}
  {pprev : Option CBlockIndex} {m m' : TipState} {known : CTransaction → Prop} {kept : Prop}
  {v w : CoinsView}

theorem CCoins.fromTx_available {nHeight : Int} (available : (CCoins.fromTx tx nHeight).isAvailable n = true) :
    CTxMemPool.Offers tx n ∧ n < tx.vout.length := by
  refine ⟨available, ?_⟩
  have inside := lt_of_isAvailable available
  have shorter : (CCoins.fromTx tx nHeight).vout.length ≤ (tx.vout.map fun o =>
      if CScript.isUnspendable o.scriptPubKey then CTxOut.null else o).length :=
    (List.rdropWhile_prefix CTxOut.isNull _).length_le
  rw [List.length_map] at shorter
  omega

namespace CoinsView

theorem spendInputs_available (clean : v.Clean) (h : v.spendInputs vin = some (w, undos)) :
    w.Clean ∧ ∀ o, w.isOutputAvailable o = (v.isOutputAvailable o && !decide (o ∈ vin.map CTxIn.prevout)) := by
  refine ⟨?_, isOutputAvailable_spendInputs h⟩
  induction vin generalizing v undos with
  | nil =>
    obtain ⟨rfl, rfl⟩ := Prod.mk.inj (Option.some.inj h)
    exact clean
  | cons txin rest ih =>
    simp only [spendInputs, Option.bind_eq_bind, Option.bind_eq_some_iff] at h
    obtain ⟨⟨mid, undo⟩, first, ⟨w', undos'⟩, second, done⟩ := h
    obtain ⟨rfl, rfl⟩ := Prod.mk.inj (Option.some.inj done)
    exact ih (spend_clean clean first) second

end CoinsView

theorem connectTx_available (clean : st.view.Clean) (h : connectTx ctx i st tx = .ok st') :
    st'.view.Clean ∧ (st.view.coinsAt tx.hash).isPruned = true ∧
      ∀ o, st'.view.isOutputAvailable o =
        if o.hash = tx.hash then (CCoins.fromTx tx ctx.nHeight).isAvailable o.n
        else st.view.isOutputAvailable o && !(tx.spendsCoins && decide (o ∈ tx.prevouts)) := by
  obtain ⟨txundo, connected⟩ := connectTx_ok h
  obtain ⟨_, value, _⟩ := connected.valueOut
  have nonneg := (getValueOut_spec value).1
  refine ⟨?_, connected.pruned, connectTx_outputs h⟩
  have update := connected.update
  rw [CoinsView.updateCoins, ← CTransaction.spendsCoins] at update
  cases spends : tx.spendsCoins with
  | false =>
    simp only [spends, Bool.false_eq_true, if_false, Option.bind_eq_bind, Option.bind_some, Option.pure_def,
      Option.some.injEq, Prod.mk.injEq] at update
    rw [← update.1]
    exact CoinsView.addOutputs_clean nonneg clean _
  | true =>
    simp only [spends, if_true, Option.bind_eq_bind, Option.bind_eq_some_iff, Option.pure_def, Option.some.injEq,
      Prod.mk.injEq] at update
    obtain ⟨⟨mid, undos⟩, spent, view, _⟩ := update
    rw [← view]
    exact CoinsView.addOutputs_clean nonneg (CoinsView.spendInputs_available clean spent).1 _

namespace CTxMemPool

def Feeds (p : CTxMemPool) (v : CoinsView) (o : COutPoint) : Prop :=
  v.isOutputAvailable o = true ∨ ∃ parent, p.Holds parent ∧ parent.hash = o.hash ∧ Offers parent o.n

/-- Every input of a transaction without zerocoins is fed, or offered by one of `pending`. -/
def Fed (p : CTxMemPool) (v : CoinsView) (pending : List CTransaction) : Prop :=
  ∀ tx, p.Holds tx → tx.containsZerocoins = false → ∀ o ∈ tx.prevouts,
    p.Feeds v o ∨ ∃ b ∈ pending, b.hash = o.hash ∧ Offers b o.n

variable {tx : CTransaction} {p : CTxMemPool} {pending : List CTransaction}
  {known : CTransaction → Prop}

theorem Offers.lt (offers : Offers tx n) : n < tx.vout.length :=
  (CCoins.fromTx_available offers).2

theorem TakesChildren.fed (takes : p.TakesChildren q) (fed : p.Fed v pending) : q.Fed v pending := by
  intro tx held free o mem
  rcases fed tx (takes.shrinks.holds held) free o mem with (available | ⟨parent, pooled, hash, offers⟩) | waiting
  · exact Or.inl (Or.inl available)
  · refine Or.inl (Or.inr ⟨parent, ?_, hash, offers⟩)
    by_contra gone
    have kept := takes.children parent tx o.n pooled gone held offers.lt
    rw [hash] at kept
    exact kept mem
  · exact Or.inr waiting

theorem removeBlockTx_fed (exact_ : p.Exact) (same : ∀ other, p.Holds other → other.hash = tx.hash → other = tx)
    (pruned : (v.coinsAt tx.hash).isPruned = true)
    (after : ∀ o, w.isOutputAvailable o = if o.hash = tx.hash then (CCoins.fromTx tx nHeight).isAvailable o.n else v.isOutputAvailable o && !(tx.spendsCoins && decide (o ∈ tx.prevouts)))
    (fed : p.Fed v []) (conflicts : List CTransaction) : (removeBlockTx (p, conflicts) tx).1.Fed w [] := by
  have single := shrinks_exact (remove_shrinks p tx false) exact_
  obtain ⟨takes, apart⟩ := removeConflicts_takesChildren single tx
  intro child held free o mem
  have kept := holds_remove_single tx |>.mp (takes.shrinks.holds held)
  have unspent : o ∉ tx.prevouts := fun spent => apart child held kept.2 o spent mem
  refine Or.inl ?_
  rcases fed child kept.1 free o mem with (available | ⟨parent, pooled, hash, offers⟩) | ⟨_, none, _⟩
  · -- the entry of the new transaction was spent, so the output belongs to another one
    have other : o.hash ≠ tx.hash := by
      intro equal
      have live := CoinsView.isOutputAvailable_unspent available
      rw [equal, CCoins.isPruned_iff_outputAt.mp pruned] at live
      cases live
    refine Or.inl ?_
    rw [after, if_neg other, available]
    simp [unspent]
  · by_cases confirmed : parent.hash = tx.hash
    · obtain rfl := same parent pooled confirmed
      refine Or.inl ?_
      rw [after, if_pos hash.symm]
      exact offers
    · refine Or.inr ⟨parent, ?_, hash, offers⟩
      by_contra gone
      have stays := takes.children parent child o.n (holds_remove_single tx |>.mpr ⟨pooled, confirmed⟩) gone held offers.lt
      rw [hash] at stays
      exact stays mem
  · cases none

theorem removeForBlock_fed (h : connectTxs ctx i st txs = .ok st') (exact_ : p.Exact)
    (same : ∀ tx ∈ txs, ∀ other, p.Holds other → other.hash = tx.hash → other = tx) (clean : st.view.Clean)
    (fed : p.Fed st.view []) (conflicts : List CTransaction) : (txs.foldl removeBlockTx (p, conflicts)).1.Fed st'.view [] := by
  induction txs generalizing i st p conflicts with
  | nil =>
    obtain rfl := Except.ok.inj h
    exact fed
  | cons tx txs ih =>
    obtain ⟨mid, first, rest⟩ := Checked.bind_ok h
    obtain ⟨clean', pruned, after⟩ := connectTx_available clean first
    have step := removeBlockTx_fed exact_ (same tx (by simp)) pruned after fed conflicts
    have shrinks : p.Shrinks (removeBlockTx (p, conflicts) tx).1 :=
      (remove_shrinks p tx false).trans (removeConflicts_shrinks _ tx)
    exact ih rest (shrinks_exact shrinks exact_)
      (fun t mem other held => same t (by simp [mem]) other (shrinks.holds held)) clean' step _

def Pools (p : CTxMemPool) (known : CTransaction → Prop) : Prop :=
  ∀ tx, p.Holds tx → known tx ∧ tx.isCoinBase = false ∧ tx.isCoinStake = false

/-- What a disconnected block leaves in the pool: its transactions that are accepted again; those that
are refused go with their children. -/
def resurrect (s : ChainState) (checks : Checks) (policy : MempoolPolicy) (base : CoinsView) (p : CTxMemPool)
    (tx : CTransaction) : CTxMemPool :=
  if tx.isCoinBase || tx.isCoinStake then (p.remove tx true).1
  else match acceptToMemoryPool s checks policy base p tx false false false with
    | .ok pool => pool
    | .error _ => (p.remove tx true).1

/-- The pool while the transactions in `pending` are still to be resurrected. -/
structure Resurrecting (known : CTransaction → Prop) (base : CoinsView) (p : CTxMemPool) (pending : List CTransaction) : Prop where
  exact_ : p.Exact
  pools : p.Pools known
  fed : p.Fed base pending

theorem Pools.shrinks (pools : p.Pools known) (shrinks : p.Shrinks q) : q.Pools known :=
  fun tx held => pools tx (shrinks.holds held)

theorem Resurrecting.remove (h : Resurrecting known base p (tx :: pending))
    (same : ∀ other, p.Holds other → other.hash = tx.hash → other = tx) :
    Resurrecting known base (p.remove tx true).1 pending := by
  obtain ⟨takes, _⟩ := remove_takesChildren h.exact_ tx
  refine ⟨shrinks_exact takes.shrinks h.exact_, h.pools.shrinks takes.shrinks, fun child held free o mem => ?_⟩
  rcases takes.fed h.fed child held free o mem with fed | ⟨b, listed, hash, offers⟩
  · exact Or.inl fed
  · rcases List.mem_cons.mp listed with rfl | later
    · have spent := remove_unspent h.exact_ same held offers.lt
      rw [hash] at spent
      exact absurd mem spent
    · exact Or.inr ⟨b, later, hash, offers⟩

theorem Resurrecting.accept (entry : CTxMemPoolEntry) (h : Resurrecting known base p (entry.tx :: pending))
    (known_ : known entry.tx) (acceptable : p.Acceptable base entry.tx) (spendFree : entry.tx.hasZerocoinSpendInputs = false) :
    Resurrecting known base (p.addUnchecked entry.tx.hash entry) pending := by
  have addable := acceptable.addable spendFree
  have holds : ∀ tx, (p.addUnchecked entry.tx.hash entry).Holds tx ↔ tx = entry.tx ∨ p.Holds tx := fun tx =>
    holds_addUnchecked entry addable.absent
  have feeds : ∀ o, p.Feeds base o → (p.addUnchecked entry.tx.hash entry).Feeds base o := by
    rintro o (available | ⟨parent, pooled, hash, offers⟩)
    · exact Or.inl available
    · exact Or.inr ⟨parent, (holds parent).mpr (Or.inr pooled), hash, offers⟩
  refine ⟨addUnchecked_exact entry h.exact_ addable, fun tx held => ?_, fun tx held free o mem => ?_⟩
  · rcases (holds tx).mp held with rfl | pooled
    · exact ⟨known_, acceptable.notCoinBase, acceptable.notCoinStake⟩
    · exact h.pools tx pooled
  · rcases (holds tx).mp held with rfl | pooled
    · exact Or.inl (feeds o (acceptable.inputs h.exact_ spendFree mem))
    · rcases h.fed tx pooled free o mem with fed | ⟨b, listed, hash, offers⟩
      · exact Or.inl (feeds o fed)
      · rcases List.mem_cons.mp listed with rfl | later
        · exact Or.inl (Or.inr ⟨entry.tx, (holds _).mpr (Or.inl rfl), hash, offers⟩)
        · exact Or.inr ⟨b, later, hash, offers⟩

end CTxMemPool

/-- The transactions that exist: their hashes differ, none is null, and no transaction leads back to
itself through the hashes of its inputs. -/
structure Hashed (known : CTransaction → Prop) : Prop where
  unique : ∀ a b, known a → known b → a.hash = b.hash → a = b
  nonzero : ∀ a, known a → a.hash ≠ 0
  acyclic : WellFounded fun a b => known a ∧ known b ∧ ∃ o ∈ b.prevouts, o.hash = a.hash

/-- The live coins of a view are those of known transactions. Where nothing was lost, they come from blocks up to a
height and are marked as their transaction is. -/
def CoinsView.From (v : CoinsView) (known : CTransaction → Prop) (kept : Prop) (nHeight : Nat) : Prop :=
  ∀ t, (v.coinsAt t).isPruned = false → ∃ tx, known tx ∧ tx.hash = t ∧ (kept → (v.coinsAt t).nHeight ≤ nHeight ∧
    ((v.coinsAt t).fCoinBase || (v.coinsAt t).fCoinStake) = (tx.isCoinBase || tx.isCoinStake))

namespace CTxMemPool

variable {known : CTransaction → Prop} {kept : Prop} {s : ChainState} {checks : Checks} {policy : MempoolPolicy}
  {base : CoinsView} {nHeight : Nat} {p : CTxMemPool} {tx : CTransaction} {pending : List CTransaction}

theorem Resurrecting.accepted (hashed : Hashed known) (from_ : base.From known kept nHeight) (known_ : known tx)
    (h : Resurrecting known base p (tx :: pending))
    (accepted : acceptToMemoryPool s checks policy base p tx fLimitFree fRejectInsaneFee ignoreFees = .ok pool) :
    Resurrecting known base pool pending := by
  have noPooled : p.exists_ 0 = false := by
    rw [Bool.eq_false_iff]
    intro present
    obtain ⟨entry, found⟩ := exists_iff.mp present
    exact hashed.nonzero entry.tx (h.pools _ (h.exact_.holds found)).1 (h.exact_.keyed _ _ found)
  have noCoins : (base.coinsAt 0).isPruned = true := by
    cases live : (base.coinsAt 0).isPruned with
    | true => rfl
    | false =>
      obtain ⟨source, member, null, _⟩ := from_ 0 live
      exact absurd null (hashed.nonzero source member)
  obtain ⟨acceptable, rfl⟩ := acceptToMemoryPool_ok accepted
  exact h.accept ⟨tx, checks.txSize tx⟩ known_ acceptable (acceptable.spendFree noPooled noCoins)

theorem resurrect_step (hashed : Hashed known) (from_ : base.From known kept nHeight) (known_ : known tx)
    (h : Resurrecting known base p (tx :: pending)) : Resurrecting known base (resurrect s checks policy base p tx) pending := by
  have same : ∀ other, p.Holds other → other.hash = tx.hash → other = tx := fun other held =>
    hashed.unique other tx (h.pools other held).1 known_
  unfold resurrect
  split
  · exact h.remove same
  · split
    · rename_i pool accepted
      exact h.accepted hashed from_ known_ accepted
    · exact h.remove same

theorem resurrect_all (hashed : Hashed known) (s : ChainState) (checks : Checks) (policy : MempoolPolicy)
    (from_ : base.From known kept nHeight) (known_ : ∀ tx ∈ txs, known tx) (h : Resurrecting known base p txs) :
    Resurrecting known base (txs.foldl (resurrect s checks policy base) p) [] := by
  induction txs generalizing p with
  | nil => exact h
  | cons tx txs ih =>
    exact ih (fun t mem => known_ t (by simp [mem])) (resurrect_step hashed from_ (known_ tx (by simp)) h)

theorem removeCoinbaseSpends_mature (hashed : Hashed known) (exact_ : p.Exact) (pools : p.Pools known)
    (from_ : v.From known kept nHeight) (kept_ : kept) (below : nHeight ≤ nMemPoolHeight)
    (held : (p.removeCoinbaseSpends network v.accessCoins nMemPoolHeight).Holds tx) (mem : o ∈ tx.prevouts)
    (available : v.isOutputAvailable o = true) (known_ : known source) (hash : source.hash = o.hash)
    (generated : (source.isCoinBase || source.isCoinStake) = true) :
    (nMemPoolHeight : Int) - (v.coinsAt o.hash).nHeight ≥ network.consensus.nCoinbaseMaturity := by
  obtain ⟨takes, gone⟩ := removeAll_takesChildren exact_ ((p.mapTx.entries.map fun e => e.2.tx).filter fun tx =>
    tx.vin.any (p.spendsImmature network v.accessCoins nMemPoolHeight))
  have before := takes.shrinks.holds held
  have live : (v.coinsAt o.hash).isPruned = false := by
    rw [Bool.eq_false_iff]
    intro pruned
    have unspent := CoinsView.isOutputAvailable_unspent available
    rw [CCoins.isPruned_iff_outputAt.mp pruned] at unspent
    cases unspent
  obtain ⟨source', member, hash', marked⟩ := from_ o.hash live
  obtain ⟨height, flagged⟩ := marked kept_
  rw [hashed.unique source' source member known_ (hash'.trans hash.symm), generated] at flagged
  obtain ⟨i, input, rfl⟩ := List.mem_map.mp mem
  have passed : p.spendsImmature network v.accessCoins nMemPoolHeight i = false := by
    by_contra immature
    obtain ⟨entry, found, same⟩ := before
    have listed : tx ∈ (p.mapTx.entries.map fun e => e.2.tx).filter fun tx =>
        tx.vin.any (p.spendsImmature network v.accessCoins nMemPoolHeight) := by
      refine List.mem_filter.mpr ⟨List.mem_map.mpr ⟨⟨tx.hash, entry⟩, StdMap.mem_entries_iff.mpr found, same⟩, ?_⟩
      exact List.any_eq_true.mpr ⟨i, input, by simpa using immature⟩
    have kept := held.exists_
    rw [removeCoinbaseSpends, gone tx listed] at kept
    cases kept
  -- a pooled parent would be the coinbase or coinstake itself
  have unpooled : p.exists_ i.prevout.hash = false := by
    rw [Bool.eq_false_iff]
    intro present
    obtain ⟨entry, found⟩ := exists_iff.mp present
    obtain ⟨pooled_, base, stake⟩ := pools _ (exact_.holds found)
    have equal := hashed.unique entry.tx source pooled_ known_ ((exact_.keyed _ _ found).trans hash.symm)
    rw [← equal, base, stake] at generated
    cases generated
  have stored : v.accessCoins i.prevout.hash = some (v.coinsAt i.prevout.hash) := by
    unfold CoinsView.accessCoins CoinsView.coinsAt
    cases entry : v.coins.lookup i.prevout.hash with
    | none => simp [CoinsView.coinsAt, entry] at live
    | some c => rfl
  simp only [spendsImmature, unpooled, stored, flagged, Bool.not_false, Bool.true_and, decide_eq_false_iff_not] at passed
  omega

end CTxMemPool

structure TipState where
  pcoinsTip : CoinsView
  mempool : CTxMemPool

def connectTip (s : ChainState) (checks : Checks) (block : CBlock) (pindexNew : CBlockIndex) (pprev : Option CBlockIndex)
    (m : TipState) : Except Reject TipState := do
  let c ← connectBlock s checks block pindexNew pprev m.pcoinsTip
  return { pcoinsTip := c.view, mempool := (m.mempool.removeForBlock block.vtx).1 }

/-- `DisconnectTip` with the block and its undo data as read from disk. The tip of `s` is still the block. -/
def disconnectTip (s : ChainState) (checks : Checks) (policy : MempoolPolicy) (block : CBlock)
    (pindexDelete pprev : CBlockIndex) (blockUndo : List CTxUndo) (m : TipState) : Except Reject TipState := do
  let (fClean, view) ← disconnectBlock block pindexDelete pprev blockUndo m.pcoinsTip
  refuse (!fClean) (.invalid "DisconnectTip() : DisconnectBlock failed")
  let pool := block.vtx.foldl (CTxMemPool.resurrect s checks policy view) m.mempool
  return { pcoinsTip := view, mempool := pool.removeCoinbaseSpends s.network view.accessCoins pindexDelete.nHeight }

namespace CTxMemPool

/-- Every input of a transaction without zerocoins is an available output of the coins view or an output
that another transaction of the pool offers, and the pool has no cycle. -/
structure Consistent (p : CTxMemPool) (v : CoinsView) : Prop where
  inputs : ∀ tx, p.Holds tx → tx.containsZerocoins = false → ∀ o ∈ tx.prevouts,
    v.isOutputAvailable o = true ∨ ∃ parent, p.Holds parent ∧ parent ≠ tx ∧ parent.hash = o.hash ∧ Offers parent o.n
  acyclic : WellFounded fun a b => p.Holds a ∧ p.Holds b ∧ ∃ o ∈ b.prevouts, o.hash = a.hash

variable {p : CTxMemPool}

theorem Consistent.fed (consistent : p.Consistent v) : p.Fed v [] := by
  intro tx held free o mem
  rcases consistent.inputs tx held free o mem with available | ⟨parent, pooled, _, hash, offers⟩
  · exact Or.inl (Or.inl available)
  · exact Or.inl (Or.inr ⟨parent, pooled, hash, offers⟩)

theorem Consistent.of_fed (fed : p.Fed v [])
    (acyclic : WellFounded fun a b => p.Holds a ∧ p.Holds b ∧ ∃ o ∈ b.prevouts, o.hash = a.hash) : p.Consistent v := by
  refine ⟨fun tx held free o mem => ?_, acyclic⟩
  rcases fed tx held free o mem with (available | ⟨parent, pooled, hash, offers⟩) | ⟨_, none, _⟩
  · exact Or.inl available
  · refine Or.inr ⟨parent, pooled, ?_, hash, offers⟩
    rintro rfl
    exact acyclic.asymmetric parent parent ⟨pooled, pooled, o, mem, hash.symm⟩ ⟨pooled, pooled, o, mem, hash.symm⟩
  · cases none

theorem removeForBlock_genesis (exact_ : p.Exact) (unpooled : ∀ tx, p.Holds tx → tx.hash ≠ coinbase.hash) :
    p.TakesChildren (p.removeForBlock [coinbase]).1 := by
  have first : p.TakesChildren (p.remove coinbase false).1 :=
    ⟨remove_shrinks p coinbase false, fun tx child i held gone => absurd
      ((holds_remove_single coinbase).mpr ⟨held, unpooled tx held⟩) gone⟩
  exact first.trans (removeConflicts_takesChildren (shrinks_exact first.shrinks exact_) coinbase).1

end CTxMemPool

/-- What the operations on the tip keep besides consistency: clean coins, exact indexes, and a pool of
known transactions that are neither coinbases nor coinstakes. -/
structure TipState.Sound (m : TipState) (known : CTransaction → Prop) : Prop where
  clean : m.pcoinsTip.Clean
  exact_ : m.mempool.Exact
  pools : m.mempool.Pools known

theorem connectTip_ok (h : connectTip s checks block pindexNew pprev m = .ok m') :
    ∃ c, connectBlock s checks block pindexNew pprev m.pcoinsTip = .ok c ∧
      m' = { pcoinsTip := c.view, mempool := (m.mempool.removeForBlock block.vtx).1 } := by
  obtain ⟨c, accepted, h⟩ := Checked.bind_ok h
  exact ⟨c, accepted, (Except.ok.inj h).symm⟩

theorem connectBlock_parent (other : block.hash ≠ s.hashGenesisBlock)
    (h : connectBlock s checks block pindex pprev view = .ok c) :
    ∃ parent st, pprev = some parent ∧ BlockConnected s checks block pindex parent view c st := by
  cases pprev with
  | none =>
    obtain ⟨_, _, h⟩ := Checked.bind_ok h
    obtain ⟨_, h⟩ := Checked.after_refuse h
    rw [if_neg other] at h
    obtain ⟨_, h⟩ := Checked.after_refuse h
    obtain ⟨_, h⟩ := Checked.after_refuse h
    cases h
  | some parent =>
    obtain ⟨st, connected⟩ := connectBlock_ok other h
    exact ⟨parent, st, rfl, connected⟩

theorem connectTxs_clean (clean : st.view.Clean) (h : connectTxs ctx i st txs = .ok st') : st'.view.Clean := by
  induction txs generalizing i st with
  | nil =>
    obtain rfl := Except.ok.inj h
    exact clean
  | cons tx txs ih =>
    obtain ⟨mid, first, rest⟩ := Checked.bind_ok h
    exact ih (connectTx_available clean first).1 rest

theorem connectTip_sound (sound : m.Sound known) (h : connectTip s checks block pindexNew pprev m = .ok m') :
    m'.Sound known := by
  obtain ⟨c, accepted, rfl⟩ := connectTip_ok h
  have shrinks := CTxMemPool.removeForBlock_shrinks m.mempool block.vtx
  refine ⟨?_, CTxMemPool.shrinks_exact shrinks sound.exact_, sound.pools.shrinks shrinks⟩
  by_cases first : block.hash = s.hashGenesisBlock
  · rw [(connectBlock_genesis first accepted).2.1]
    exact sound.clean
  · obtain ⟨_, st, _, connected⟩ := connectBlock_parent first accepted
    rw [connected.view_eq]
    exact connectTxs_clean sound.clean connected.transactions

theorem connectTip_consistent (hashed : Hashed known) (sound : m.Sound known)
    (blockKnown : ∀ tx ∈ block.vtx, known tx)
    (genesis : block.hash = s.hashGenesisBlock → block.vtx.length = 1)
    (consistent : m.mempool.Consistent m.pcoinsTip)
    (h : connectTip s checks block pindexNew pprev m = .ok m') : m'.mempool.Consistent m'.pcoinsTip := by
  obtain ⟨c, accepted, rfl⟩ := connectTip_ok h
  have shrinks := CTxMemPool.removeForBlock_shrinks m.mempool block.vtx
  refine .of_fed ?_ (Subrelation.wf (fun h => ⟨shrinks.holds h.1, shrinks.holds h.2.1, h.2.2⟩) consistent.acyclic)
  by_cases first : block.hash = s.hashGenesisBlock
  · obtain ⟨checked, view, _⟩ := connectBlock_genesis first accepted
    obtain ⟨coinbase, rest, shape, base, _⟩ := checkBlockShape_ok (checkBlock_ok checked).1
    obtain rfl : rest = [] := by simpa [shape] using genesis first
    have unpooled : ∀ tx, m.mempool.Holds tx → tx.hash ≠ coinbase.hash := by
      intro tx held equal
      obtain ⟨known_, plain, _⟩ := sound.pools tx held
      rw [hashed.unique tx coinbase known_ (blockKnown coinbase (by simp [shape])) equal, base] at plain
      cases plain
    have takes := CTxMemPool.removeForBlock_genesis sound.exact_ unpooled
    rw [view, shape]
    exact takes.fed consistent.fed
  · obtain ⟨pprev, st, rfl, connected⟩ := connectBlock_parent first accepted
    rw [connected.view_eq]
    exact CTxMemPool.removeForBlock_fed connected.transactions sound.exact_
      (fun tx mem other held => hashed.unique other tx (sound.pools other held).1 (blockKnown tx mem)) sound.clean
      consistent.fed []

theorem connectTxs_available (clean : st.view.Clean) (h : connectTxs ctx i st txs = .ok st')
    (available : st'.view.isOutputAvailable o = true) :
    st.view.isOutputAvailable o = true ∨ ∃ b ∈ txs, b.hash = o.hash ∧ CTxMemPool.Offers b o.n := by
  induction txs generalizing i st with
  | nil =>
    obtain rfl := Except.ok.inj h
    exact Or.inl available
  | cons tx txs ih =>
    obtain ⟨mid, first, rest⟩ := Checked.bind_ok h
    obtain ⟨clean', _, after⟩ := connectTx_available clean first
    rcases ih clean' rest with before | ⟨b, mem, own⟩
    · rw [after] at before
      split at before
      · rename_i own
        exact Or.inr ⟨tx, by simp, own.symm, (CCoins.fromTx_available before).1⟩
      · exact Or.inl (Bool.and_eq_true_iff.mp before).1
    · exact Or.inr ⟨b, by simp [mem], own⟩

theorem CoinsView.From.mono (from_ : v.From known kept low) (le : low ≤ high) : v.From known kept high := by
  intro t live
  obtain ⟨tx, member, hash, marked⟩ := from_ t live
  refine ⟨tx, member, hash, fun kept_ => ?_⟩
  obtain ⟨height, marks⟩ := marked kept_
  exact ⟨by omega, marks⟩

theorem CoinsView.From.of_empty (known : CTransaction → Prop) (kept : Prop) (hashBlock : uint256) (nHeight : Nat) :
    CoinsView.From { hashBlock } known kept nHeight := by
  intro t live
  simp [CoinsView.coinsAt] at live

theorem CoinsView.From.addOutputs (from_ : v.From known kept nHeight) (known_ : known tx) (nonneg : ∀ o ∈ tx.vout, 0 ≤ o.nValue)
    (le : height ≤ nHeight) : (v.addOutputs tx height).From known kept nHeight := by
  intro t live
  rw [CoinsView.coinsAt_addOutputs nonneg v height] at live ⊢
  split at live
  · next same =>
    rw [if_pos same]
    exact ⟨tx, known_, same.symm, fun _ => ⟨Int.ofNat_le.mpr le, rfl⟩⟩
  · next other =>
    rw [if_neg other]
    exact from_ t live

theorem CoinStep.Forward.from_ (forward : Forward maturity nHeight v steps w) (clean : v.Clean)
    (created : ∀ tx, .created tx ∈ steps → known tx) (before : v.From known kept nHeight) : w.From known kept nHeight := by
  induction forward with
  | done v => exact before
  | @spent v v' w out undo rest spend mature after ih =>
    obtain ⟨_, spent, others⟩ := CoinsView.spend_coinsAt clean spend
    refine ih (CoinsView.spend_clean clean spend) (fun tx mem => created tx (List.mem_cons_of_mem _ mem)) fun t live => ?_
    by_cases same : t = out.hash
    · subst same
      have unspent : (v.coinsAt out.hash).isPruned = false := by
        rw [Bool.eq_false_iff]
        intro pruned
        have null := CCoins.isPruned_iff_outputAt.mp pruned out.n
        rw [spent.unspent] at null
        cases null
      rw [spent.fields]
      exact before out.hash unspent
    · rw [others t same] at live ⊢
      exact before t live
  | @created v w tx rest pruned nonneg after ih =>
    exact ih (CoinsView.addOutputs_clean nonneg clean nHeight) (fun tx mem => created tx (List.mem_cons_of_mem _ mem))
      (before.addOutputs (created tx List.mem_cons_self) nonneg (Nat.le_refl _))

/-- No transaction of the pool spends an available output of a coinbase or coinstake that is immature at a height. -/
def TipState.SpendsMature (m : TipState) (known : CTransaction → Prop) (network : Network) (nHeight : Nat) : Prop :=
  ∀ tx, m.mempool.Holds tx → ∀ o ∈ tx.prevouts, m.pcoinsTip.isOutputAvailable o = true →
    ∀ source, known source → source.hash = o.hash → (source.isCoinBase || source.isCoinStake) = true →
      (nHeight : Int) - (m.pcoinsTip.coinsAt o.hash).nHeight ≥ network.consensus.nCoinbaseMaturity

/-- A connected block, with the undo data that was stored for it. -/
structure TipBlock where
  block : CBlock
  pindex : CBlockIndex
  pprev : CBlockIndex
  blockUndo : List CTxUndo

/-- The block emptied no coinstake entry, whose mark its undo data would have to restore. -/
def TipBlock.KeepsMarks (b : TipBlock) : Prop := ∀ txundo ∈ b.blockUndo, ∀ record ∈ txundo, record.fCoinStake = false

/-- Two views have the same outputs and, where nothing was lost, the same coins. -/
def Alike (kept : Prop) (v w : CoinsView) : Prop :=
  ∀ t, (v.coinsAt t).vout = (w.coinsAt t).vout ∧ (kept → (v.coinsAt t).eqv (w.coinsAt t) = true)

theorem Alike.refl (kept : Prop) (v : CoinsView) : Alike kept v v := fun _ => ⟨rfl, fun _ => CCoins.eqv_refl _⟩

theorem Alike.trans (first : Alike kept u v) (second : Alike kept v w) : Alike kept u w :=
  fun t => ⟨(first t).1.trans (second t).1, fun kept_ => CCoins.eqv_trans ((first t).2 kept_) ((second t).2 kept_)⟩

theorem Alike.from_ (alike : Alike kept v w) (from_ : w.From known kept nHeight) :
    v.From known kept nHeight := by
  intro t live
  have live' : (w.coinsAt t).isPruned = false := (CCoins.isPruned_congr (alike t).1).symm.trans live
  obtain ⟨tx, member, hash, marked⟩ := from_ t live'
  refine ⟨tx, member, hash, fun kept_ => ?_⟩
  rw [CoinStep.eq_of_eqv ((alike t).2 kept_) live']
  exact marked kept_

namespace TipBlock

/-- The block was connected to the view `before` and left the view `after`. -/
structure Connects (b : TipBlock) (known : CTransaction → Prop) (kept : Prop) (before after : CoinsView) : Prop where
  blockKnown : ∀ tx ∈ b.block.vtx, known tx
  clean : before.Clean
  from_ : before.From known kept b.pprev.nHeight
  connected : ∃ (s : ChainState) (checks : Checks) (pos : BlockPosition s) (c : Connected),
    pos.pindex = b.pindex ∧ pos.pprev = b.pprev ∧ connectBlock s checks b.block b.pindex (some b.pprev) before = .ok c ∧
    c.blockundo = some b.blockUndo ∧ c.view = after

variable {b : TipBlock} {known : CTransaction → Prop} {kept : Prop} {before after : CoinsView}

theorem Connects.height (tip : b.Connects known kept before after) : b.pindex.nHeight = b.pprev.nHeight + 1 := by
  obtain ⟨_, _, pos, _, pindex, pprev, _⟩ := tip.connected
  rw [← pindex, ← pprev]
  exact pos.height

theorem Connects.available (tip : b.Connects known kept before after) (available : after.isOutputAvailable o = true) :
    before.isOutputAvailable o = true ∨ ∃ tx ∈ b.block.vtx, tx.hash = o.hash ∧ CTxMemPool.Offers tx o.n := by
  obtain ⟨s, checks, pos, c, _, _, accepted, produced, rfl⟩ := tip.connected
  have other : b.block.hash ≠ s.hashGenesisBlock := fun genesis => by
    rw [(connectBlock_genesis genesis accepted).2.2.1] at produced
    cases produced
  obtain ⟨last, connected⟩ := connectBlock_ok other accepted
  rw [connected.view_eq] at available
  exact connectTxs_available tip.clean connected.transactions available

theorem Connects.after_from (tip : b.Connects known kept before after) : after.From known kept b.pindex.nHeight := by
  have height := tip.height
  obtain ⟨s, checks, pos, c, pindex, pprev, accepted, produced, rfl⟩ := tip.connected
  rw [← pindex, ← pprev] at accepted
  obtain ⟨steps, last, changes, view, _⟩ := disconnect_connected tip.clean accepted produced
  rw [view, ← pindex]
  refine changes.forward.from_ tip.clean (fun tx mem => tip.blockKnown tx (changes.creations tx mem)) (tip.from_.mono ?_)
  rw [pindex]
  omega

/-- Disconnecting the block from a view like the one it left gives one like the view before it. -/
theorem Connects.disconnected (tip : b.Connects known kept before after) (clean : v.Clean) (best : v.hashBlock = b.pindex.hash)
    (alike : Alike kept v after) (meets : kept → b.KeepsMarks)
    (done : disconnectBlock b.block b.pindex b.pprev b.blockUndo v = .ok (true, w)) :
    w.Clean ∧ w.hashBlock = b.pprev.hash ∧ Alike kept w before := by
  obtain ⟨s, checks, pos, c, pindex, pprev, accepted, produced, rfl⟩ := tip.connected
  rw [← pindex, ← pprev] at accepted done
  rw [← pindex] at best
  obtain ⟨steps, last, changes, view, disconnects⟩ := disconnect_connected tip.clean accepted produced
  rw [disconnects v best] at done
  obtain ⟨flag, rfl⟩ := Prod.mk.inj (Except.ok.inj done)
  have same : ∀ t, c.view.coinsAt t = last.coinsAt t := fun t => by
    rw [view]
    rfl
  have outputs := CoinStep.undoAll_outputs changes.forward tip.clean clean fun t => same t ▸ (alike t).1
  refine ⟨outputs.clean, by rw [← pprev]; rfl, fun t => ⟨outputs.outputs t, fun kept_ => ?_⟩⟩
  have undone := CoinStep.undoAll_undone s.network.maturity_pos changes.height changes.forward tip.clean clean
    fun t => same t ▸ (alike t).2 kept_
  cases live : (before.coinsAt t).isPruned with
  | true => exact CCoins.eqv_iff.mpr (Or.inl ⟨(CCoins.isPruned_congr (outputs.outputs t)).trans live, live⟩)
  | false =>
    refine CCoins.eqv_iff.mpr (Or.inr ((undone.restored flag t live).refl_of_not fun emptied => ?_))
    obtain ⟨out, record, member, mark⟩ := changes.forward.record tip.clean live emptied
    obtain ⟨txundo, stored, recorded⟩ := changes.records out record member
    rw [← mark]
    exact meets kept_ txundo stored record recorded

end TipBlock

theorem disconnectTip_consistent (hashed : Hashed known) {b : TipBlock} (sound : m.Sound known)
    (tip : b.Connects known kept before after) (best : m.pcoinsTip.hashBlock = b.pindex.hash)
    (alike : Alike kept m.pcoinsTip after) (meets : kept → b.KeepsMarks) (consistent : m.mempool.Consistent m.pcoinsTip)
    (h : disconnectTip s checks policy b.block b.pindex b.pprev b.blockUndo m = .ok m') :
    m'.mempool.Consistent m'.pcoinsTip ∧ m'.Sound known ∧ m'.pcoinsTip.hashBlock = b.pprev.hash ∧ Alike kept m'.pcoinsTip before ∧
      (kept → m'.SpendsMature known s.network (b.pprev.nHeight + 1)) := by
  obtain ⟨⟨fClean, view⟩, disconnected, h⟩ := Checked.bind_ok h
  obtain ⟨unclean, h⟩ := Checked.after_refuse h
  obtain rfl := Except.ok.inj h
  have flag : fClean = true := by simpa using unclean
  subst flag
  obtain ⟨clean, best', alike'⟩ := tip.disconnected sound.clean best alike meets disconnected
  have from_ := alike'.from_ tip.from_
  have start : CTxMemPool.Resurrecting known view m.mempool b.block.vtx := by
    refine ⟨sound.exact_, sound.pools, fun tx held free o mem => ?_⟩
    rcases consistent.inputs tx held free o mem with available | ⟨parent, pooled, _, hash, offers⟩
    · have there : after.isOutputAvailable o = true := by
        rw [CoinsView.isOutputAvailable, CCoins.isAvailable, ← (alike o.hash).1]
        exact available
      rcases tip.available there with earlier | own
      · refine Or.inl (Or.inl ?_)
        rw [CoinsView.isOutputAvailable, CCoins.isAvailable, (alike' o.hash).1]
        exact earlier
      · exact Or.inr own
    · exact Or.inl (Or.inr ⟨parent, pooled, hash, offers⟩)
  have done := CTxMemPool.resurrect_all hashed s checks policy from_ tip.blockKnown start
  obtain ⟨takes, _⟩ := CTxMemPool.removeAll_takesChildren done.exact_ _
  refine ⟨?_, ⟨clean, CTxMemPool.shrinks_exact takes.shrinks done.exact_, done.pools.shrinks takes.shrinks⟩, best', alike',
    fun kept_ tx held o mem available source known_ hash generated => ?_⟩
  · refine .of_fed (takes.fed done.fed) (Subrelation.wf (fun h => ?_) hashed.acyclic)
    exact ⟨(done.pools _ (takes.shrinks.holds h.1)).1, (done.pools _ (takes.shrinks.holds h.2.1)).1, h.2.2⟩
  · have height := tip.height
    rw [← height]
    exact CTxMemPool.removeCoinbaseSpends_mature hashed done.exact_ done.pools from_ kept_ (by omega) held mem available known_
      hash generated

end SchillingCoin
