import Mathlib.Logic.Relation
import SchillingCoin.Mempool.ChainUpdates

/-!
Runs of chain updates: blocks are connected and disconnected at the tip, with the undo data stored for them, and
transactions come into the memory pool and leave it in between.
-/

namespace SchillingCoin

/-- The active chain with the blocks that can be disconnected, the last one first. -/
structure TipChain where
  /-- `chainActive.Tip()`. -/
  pindexTip : Option CBlockIndex := none
  blocks : List TipBlock := []
  state : TipState

def TipChain.nHeight (n : TipChain) : Nat := (n.pindexTip.map CBlockIndex.nHeight).getD 0

/-- An update of the tip or of the memory pool. Only blocks that meet a condition are disconnected. -/
inductive TipStep (known : CTransaction → Prop) (ok : TipBlock → Prop) : TipChain → TipChain → Prop
  | genesis {n : TipChain} {s : ChainState} {checks : Checks} {block : CBlock} {pindexNew : CBlockIndex} {tip : TipState}
      (first : n.pindexTip = none) (blockKnown : ∀ tx ∈ block.vtx, known tx) (genesis : block.hash = s.hashGenesisBlock)
      (alone : block.vtx.length = 1) (connected : connectTip s checks block pindexNew none n.state = .ok tip) :
      TipStep known ok n { n with pindexTip := some pindexNew, state := tip }
  | connect {n : TipChain} {s : ChainState} {checks : Checks} {block : CBlock} (pos : BlockPosition s) {c : Connected}
      {blockUndo : List CTxUndo} {tip : TipState} (parent : n.pindexTip = some pos.pprev) (blockKnown : ∀ tx ∈ block.vtx, known tx)
      (accepted : connectBlock s checks block pos.pindex (some pos.pprev) n.state.pcoinsTip = .ok c)
      (stored : c.blockundo = some blockUndo)
      (connected : connectTip s checks block pos.pindex (some pos.pprev) n.state = .ok tip) :
      TipStep known ok n
        { pindexTip := some pos.pindex, blocks := ⟨block, pos.pindex, pos.pprev, blockUndo⟩ :: n.blocks, state := tip }
  | disconnect {n : TipChain} {s : ChainState} {checks : Checks} {policy : MempoolPolicy} {b : TipBlock} {rest : List TipBlock}
      {tip : TipState} (top : n.blocks = b :: rest) (meets : ok b)
      (disconnected : disconnectTip s checks policy b.block b.pindex b.pprev b.blockUndo n.state = .ok tip) :
      TipStep known ok n { pindexTip := some b.pprev, blocks := rest, state := tip }
  | accept {n : TipChain} {s : ChainState} {checks : Checks} {policy : MempoolPolicy} {tx : CTransaction}
      {fLimitFree fRejectInsaneFee ignoreFees : Bool} {pool : CTxMemPool} (known_ : known tx)
      (accepted : acceptToMemoryPool s checks policy n.state.pcoinsTip n.state.mempool tx fLimitFree fRejectInsaneFee ignoreFees =
        .ok pool) : TipStep known ok n { n with state := { n.state with mempool := pool } }
  | remove {n : TipChain} (tx : CTransaction) :
      TipStep known ok n { n with state := { n.state with mempool := (n.state.mempool.remove tx true).1 } }

abbrev TipRun (known : CTransaction → Prop) (ok : TipBlock → Prop) : TipChain → TipChain → Prop :=
  Relation.ReflTransGen (TipStep known ok)

/-- Each block was connected to a view like the one that disconnecting the blocks after it gives back. -/
def Linked (known : CTransaction → Prop) (kept : Prop) : List TipBlock → Option CBlockIndex → CoinsView → Prop
  | [], _, _ => True
  | b :: rest, pindexTip, v => pindexTip = some b.pindex ∧ v.hashBlock = b.pindex.hash ∧
      ∃ before after, b.Connects known kept before after ∧ Alike kept v after ∧ Linked known kept rest (some b.pprev) before

/-- A state without blocks to disconnect, with the coins of known transactions under a consistent pool. -/
structure TipChain.Starts (n : TipChain) (known : CTransaction → Prop) : Prop where
  blocks : n.blocks = []
  sound : n.state.Sound known
  consistent : n.state.mempool.Consistent n.state.pcoinsTip
  from_ : n.state.pcoinsTip.From known True n.nHeight

structure TipChain.Tracked (n : TipChain) (known : CTransaction → Prop) (kept : Prop) : Prop where
  sound : n.state.Sound known
  consistent : n.state.mempool.Consistent n.state.pcoinsTip
  from_ : n.state.pcoinsTip.From known kept n.nHeight
  linked : Linked known kept n.blocks n.pindexTip n.state.pcoinsTip

section

variable {known : CTransaction → Prop} {kept : Prop} {ok : TipBlock → Prop} {n n' : TipChain}

theorem Linked.alike (linked : Linked known kept blocks (some pindexTip) w) (best : v.hashBlock = pindexTip.hash)
    (alike : Alike kept v w) : Linked known kept blocks (some pindexTip) v := by
  cases blocks with
  | nil => trivial
  | cons b rest =>
    obtain ⟨tip, _, before, after, connects, same, rest⟩ := linked
    exact ⟨tip, by rw [best, Option.some.inj tip], before, after, connects, alike.trans same, rest⟩

theorem TipChain.Starts.tracked (starts : n.Starts known) (kept : Prop) : n.Tracked known kept := by
  refine ⟨starts.sound, starts.consistent, fun t live => ?_, ?_⟩
  · obtain ⟨tx, member, hash, marked⟩ := starts.from_ t live
    exact ⟨tx, member, hash, fun _ => marked trivial⟩
  · rw [starts.blocks]
    trivial

theorem TipChain.Tracked.unlinked (tracked : n.Tracked known kept) (first : n.pindexTip = none) : n.blocks = [] := by
  have linked := tracked.linked
  rw [first] at linked
  cases blocks : n.blocks with
  | nil => rfl
  | cons b rest =>
    rw [blocks] at linked
    cases linked.1

theorem CTxMemPool.Resurrecting.consistent (hashed : Hashed known) (h : Resurrecting known base p []) : p.Consistent base :=
  .of_fed h.fed (Subrelation.wf (fun step => ⟨(h.pools _ step.1).1, (h.pools _ step.2.1).1, step.2.2⟩) hashed.acyclic)

theorem TipChain.Tracked.resurrecting (tracked : n.Tracked known kept) (pending : List CTransaction) :
    CTxMemPool.Resurrecting known n.state.pcoinsTip n.state.mempool pending := by
  refine ⟨tracked.sound.exact_, tracked.sound.pools, fun tx held free o mem => ?_⟩
  rcases tracked.consistent.fed tx held free o mem with fed | ⟨_, none, _⟩
  · exact Or.inl fed
  · cases none

theorem TipChain.Tracked.pooled (hashed : Hashed known) (tracked : n.Tracked known kept)
    (h : CTxMemPool.Resurrecting known n.state.pcoinsTip pool []) :
    TipChain.Tracked { n with state := { n.state with mempool := pool } } known kept :=
  ⟨⟨tracked.sound.clean, h.exact_, h.pools⟩, h.consistent hashed, tracked.from_, tracked.linked⟩

theorem TipChain.Tracked.disconnected (hashed : Hashed known) (tracked : n.Tracked known kept) (top : n.blocks = b :: rest)
    (meets : kept → b.KeepsMarks)
    (disconnected : disconnectTip s checks policy b.block b.pindex b.pprev b.blockUndo n.state = .ok tip) :
    TipChain.Tracked { pindexTip := some b.pprev, blocks := rest, state := tip } known kept ∧
      (kept → tip.SpendsMature known s.network (b.pprev.nHeight + 1)) := by
  have linked := tracked.linked
  rw [top] at linked
  obtain ⟨_, best, before, after, connects, same, linked⟩ := linked
  obtain ⟨consistent, sound, best', alike, mature⟩ :=
    disconnectTip_consistent hashed tracked.sound connects best same meets tracked.consistent disconnected
  exact ⟨⟨sound, consistent, alike.from_ connects.from_, linked.alike best' alike⟩, mature⟩

/-- Every update keeps the invariant, with the marks of the coins where disconnected blocks keep them. -/
theorem TipStep.tracked (hashed : Hashed known) (step : TipStep known ok n n') (meets : kept → ∀ b, ok b → b.KeepsMarks)
    (tracked : n.Tracked known kept) : n'.Tracked known kept := by
  cases step with
  | @genesis s checks block pindexNew tip first blockKnown genesis alone connected =>
    have sound := connectTip_sound tracked.sound connected
    have consistent := connectTip_consistent hashed tracked.sound blockKnown (fun _ => alone) tracked.consistent connected
    refine ⟨sound, consistent, ?_, ?_⟩
    · obtain ⟨c, accepted, rfl⟩ := connectTip_ok connected
      have low : n.nHeight ≤ pindexNew.nHeight := by
        rw [TipChain.nHeight, first]
        exact Nat.zero_le _
      rw [(connectBlock_genesis genesis accepted).2.1]
      exact tracked.from_.mono low
    · rw [tracked.unlinked first]
      trivial
  | @connect s checks block pos c blockUndo tip parent blockKnown accepted stored connected =>
    have sound := connectTip_sound tracked.sound connected
    have other : block.hash ≠ s.hashGenesisBlock := fun genesis => by
      rw [(connectBlock_genesis genesis accepted).2.2.1] at stored
      cases stored
    have consistent := connectTip_consistent hashed tracked.sound blockKnown (fun genesis => absurd genesis other)
      tracked.consistent connected
    obtain ⟨c', accepted', rfl⟩ := connectTip_ok connected
    obtain rfl := Except.ok.inj (accepted.symm.trans accepted')
    have from_ := tracked.from_
    rw [TipChain.nHeight, parent] at from_
    have connects : TipBlock.Connects ⟨block, pos.pindex, pos.pprev, blockUndo⟩ known kept n.state.pcoinsTip c.view :=
      ⟨blockKnown, tracked.sound.clean, from_, s, checks, pos, c, rfl, rfl, accepted, stored, rfl⟩
    have best : c.view.hashBlock = pos.pindex.hash := by
      obtain ⟨_, connected⟩ := connectBlock_ok other accepted
      rw [connected.view_eq]
      rfl
    exact ⟨sound, consistent, connects.after_from, rfl, best, _, _, connects, Alike.refl kept _, parent ▸ tracked.linked⟩
  | disconnect top meets_ disconnected =>
    exact (tracked.disconnected hashed top (fun kept_ => meets kept_ _ meets_) disconnected).1
  | @accept s checks policy tx fLimitFree fRejectInsaneFee ignoreFees pool known_ accepted =>
    exact tracked.pooled hashed ((tracked.resurrecting [tx]).accepted hashed tracked.from_ known_ accepted)
  | remove tx =>
    obtain ⟨takes, _⟩ := CTxMemPool.remove_takesChildren tracked.sound.exact_ tx
    have h := tracked.resurrecting []
    exact tracked.pooled hashed ⟨CTxMemPool.shrinks_exact takes.shrinks h.exact_, h.pools.shrinks takes.shrinks, takes.fed h.fed⟩

theorem TipRun.tracked (hashed : Hashed known) (run : TipRun known ok n n') (meets : kept → ∀ b, ok b → b.KeepsMarks)
    (tracked : n.Tracked known kept) : n'.Tracked known kept := by
  induction run with
  | refl => exact tracked
  | tail _ step ih => exact step.tracked hashed meets ih

end

/-- The memory pool is consistent with the coins in every state that a run reaches. Where every disconnected block keeps
the marks of the coins it spent, no transaction of the pool spends an immature output after a disconnection. -/
theorem chain_updates_keep_mempool_consistent {known : CTransaction → Prop} (hashed : Hashed known) {start : TipChain}
    (starts : start.Starts known) :
    (∀ n, TipRun known (fun _ => True) start n → n.state.mempool.Consistent n.state.pcoinsTip) ∧
    ∀ n, TipRun known TipBlock.KeepsMarks start n → ∀ s checks policy b rest tip, n.blocks = b :: rest → b.KeepsMarks →
      disconnectTip s checks policy b.block b.pindex b.pprev b.blockUndo n.state = .ok tip →
      tip.SpendsMature known s.network (b.pprev.nHeight + 1) := by
  constructor
  · intro n run
    exact (run.tracked hashed False.elim (starts.tracked False)).consistent
  · intro n run s checks policy b rest tip top keeps disconnected
    have tracked := run.tracked hashed (fun _ _ => id) (starts.tracked True)
    exact (tracked.disconnected hashed top (fun _ => keeps) disconnected).2 trivial

theorem connectTip_of (accepted : connectBlock s checks block pindexNew pprev m.pcoinsTip = .ok c) :
    connectTip s checks block pindexNew pprev m =
      .ok { pcoinsTip := c.view, mempool := (m.mempool.removeForBlock block.vtx).1 } := by
  rw [connectTip, accepted]
  rfl

section Reorganisation

def paymentTx : CTransaction := spendTx 2001 [⟨1000, 0⟩] [payTo 4]

def changeTx : CTransaction := spendTx 2002 [⟨2001, 0⟩] [payTo 3]

def reorgTxs : List CTransaction := [mintTx 1000 [payTo 5], mintTx 2000 [payTo 32], paymentTx, changeTx]

def reorgStart : TipState where
  pcoinsTip := minedView.1
  mempool := (({} : CTxMemPool).addUnchecked paymentTx.hash ⟨paymentTx, 190⟩).addUnchecked changeTx.hash ⟨changeTx, 190⟩

def lenientPolicy : MempoolPolicy where
  checkFinalTx _ := true
  isStandardTx _ := true
  areInputsStandard _ _ := true
  verifyStandard _ _ _ _ := true
  isObfuscationBroadcast _ := false
  getMinRelayFee _ _ := 0
  minRelayTxFee _ := 0
  relayPriority := true
  allowFree _ _ := false
  rateLimited _ := false

theorem hashed_of_increasing {txs : List CTransaction} (distinct : ∀ a ∈ txs, ∀ b ∈ txs, a.hash = b.hash → a = b)
    (nonzero : ∀ a ∈ txs, a.hash ≠ 0) (order : ∀ tx ∈ txs, ∀ o ∈ tx.prevouts, o.hash.toNat < tx.hash.toNat) : Hashed (· ∈ txs) := by
  refine ⟨fun a b left right => distinct a left b right, nonzero, ?_⟩
  refine Subrelation.wf (r := fun a b => a.hash.toNat < b.hash.toNat) (fun {a b} h => ?_)
    (InvImage.wf (fun tx : CTransaction => tx.hash.toNat) Nat.lt_wfRel.wf)
  obtain ⟨_, later, o, mem, hash⟩ := h
  rw [← hash]
  exact order b later o mem

theorem reorgTxs_hashed : Hashed (· ∈ reorgTxs) := hashed_of_increasing (by decide) (by decide) (by decide)

theorem reorgStart_holds (tx : CTransaction) : reorgStart.mempool.Holds tx ↔ tx = changeTx ∨ tx = paymentTx := by
  have first : (({} : CTxMemPool).addUnchecked paymentTx.hash ⟨paymentTx, 190⟩).Holds tx ↔ tx = paymentTx := by
    rw [CTxMemPool.holds_addUnchecked ⟨paymentTx, 190⟩ rfl]
    simp [CTxMemPool.Holds]
  rw [← first]
  exact CTxMemPool.holds_addUnchecked ⟨changeTx, 190⟩ rfl

theorem reorgStart_sound : reorgStart.Sound (· ∈ reorgTxs) := by
  refine ⟨minedView.2, ?_, fun tx held => ?_⟩
  · have first := CTxMemPool.addUnchecked_exact ⟨paymentTx, 190⟩ CTxMemPool.exact_empty ⟨rfl, rfl, by decide, by decide⟩
    exact CTxMemPool.addUnchecked_exact ⟨changeTx, 190⟩ first ⟨rfl, rfl, by decide, by decide⟩
  · rcases (reorgStart_holds tx).mp held with rfl | rfl
    · decide
    · decide

theorem reorgStart_consistent : reorgStart.mempool.Consistent reorgStart.pcoinsTip := by
  refine .of_fed (fun tx held _ o mem => Or.inl ?_) (Subrelation.wf (fun h => ?_) reorgTxs_hashed.acyclic)
  · rcases (reorgStart_holds tx).mp held with rfl | rfl
    · obtain rfl : o = ⟨2001, 0⟩ := by simpa [changeTx, spendTx, CTransaction.prevouts] using mem
      exact Or.inr ⟨paymentTx, (reorgStart_holds _).mpr (Or.inr rfl), rfl, by unfold CTxMemPool.Offers; decide⟩
    · obtain rfl : o = ⟨1000, 0⟩ := by simpa [paymentTx, spendTx, CTransaction.prevouts] using mem
      exact Or.inl (by decide)
  · exact ⟨(reorgStart_sound.pools _ h.1).1, (reorgStart_sound.pools _ h.2.1).1, h.2.2⟩

theorem reorgStart_from : reorgStart.pcoinsTip.From (· ∈ reorgTxs) True 59 :=
  (CoinsView.From.of_empty _ _ _ _).addOutputs (by decide) (by decide) (by decide)

def reorgChain : TipChain := { pindexTip := some (positionAfter 59).pprev, state := reorgStart }

def minedBlock (blockUndo : List CTxUndo) : TipBlock := ⟨miningBlock, (positionAfter 59).pindex, (positionAfter 59).pprev, blockUndo⟩

def minedChain (pcoinsTip : CoinsView) (blockUndo : List CTxUndo) : TipChain where
  pindexTip := some (positionAfter 59).pindex
  blocks := [minedBlock blockUndo]
  state := { pcoinsTip, mempool := (reorgStart.mempool.removeForBlock miningBlock.vtx).1 }

theorem reorgChain_starts : reorgChain.Starts (· ∈ reorgTxs) := ⟨rfl, reorgStart_sound, reorgStart_consistent, reorgStart_from⟩

/-- The block takes the payment out of the pool and leaves its spender; without the block both are back. -/
theorem payment_returns_to_pool : ∃ connected disconnected,
    TipRun (· ∈ reorgTxs) TipBlock.KeepsMarks reorgChain connected ∧ TipRun (· ∈ reorgTxs) (fun _ => True) connected disconnected ∧
    connected.state.mempool.Consistent connected.state.pcoinsTip ∧ connected.state.mempool.exists_ 2001 = false ∧
    connected.state.mempool.exists_ 2002 = true ∧ disconnected.state.mempool.Consistent disconnected.state.pcoinsTip ∧
    disconnected.state.SpendsMature (· ∈ reorgTxs) .main 60 ∧ disconnected.state.mempool.exists_ 2001 = true ∧
    disconnected.state.mempool.exists_ 2002 = true := by
  have run : ((connectBlock (nodeAt 59) passingChecks miningBlock (positionAfter 59).pindex (some (positionAfter 59).pprev)
      minedView).toOption.bind fun c => c.blockundo.bind fun blockUndo =>
    (disconnectTip { nodeAt 59 with tip := some (positionAfter 59).pindex } passingChecks lenientPolicy miningBlock
      (positionAfter 59).pindex (positionAfter 59).pprev blockUndo
      { pcoinsTip := c.view, mempool := (reorgStart.mempool.removeForBlock miningBlock.vtx).1 }).toOption.map fun m =>
        (m.mempool.exists_ 2001, m.mempool.exists_ 2002, blockUndo.all fun txundo => txundo.all fun record => !record.fCoinStake)) =
      some (true, true, true) := by decide
  obtain ⟨c, accepted, rest⟩ := Option.bind_eq_some_iff.mp run
  obtain ⟨blockUndo, produced, rest⟩ := Option.bind_eq_some_iff.mp rest
  obtain ⟨disconnected, undone, pooled⟩ := Option.map_eq_some_iff.mp rest
  obtain ⟨payment, pooled⟩ := Prod.mk.inj pooled
  obtain ⟨change, marks⟩ := Prod.mk.inj pooled
  replace accepted := Checked.ok_of_toOption accepted
  replace undone := Checked.ok_of_toOption undone
  have keeps : (minedBlock blockUndo).KeepsMarks := by
    intro txundo stored record recorded
    simpa using List.all_eq_true.mp (List.all_eq_true.mp marks txundo stored) record recorded
  have gone : (reorgStart.mempool.removeForBlock miningBlock.vtx).1.exists_ 2001 = false := by decide
  have left : (reorgStart.mempool.removeForBlock miningBlock.vtx).1.exists_ 2002 = true := by decide
  have connects (ok : TipBlock → Prop) : TipStep (· ∈ reorgTxs) ok reorgChain (minedChain c.view blockUndo) :=
    .connect (positionAfter 59) rfl (by decide) accepted produced (connectTip_of accepted)
  have top : (minedChain c.view blockUndo).blocks = [minedBlock blockUndo] := rfl
  have disconnects : TipStep (· ∈ reorgTxs) (fun _ => True) (minedChain c.view blockUndo)
      { pindexTip := some (minedBlock blockUndo).pprev, blocks := [], state := disconnected } :=
    .disconnect top trivial undone
  obtain ⟨consistent, mature⟩ := chain_updates_keep_mempool_consistent reorgTxs_hashed reorgChain_starts
  exact ⟨_, _, .single (connects _), .single disconnects, consistent _ (.single (connects _)), gone, left,
    consistent _ (.tail (.single (connects _)) disconnects), mature _ (.single (connects _)) _ _ _ _ _ _ top keeps undone,
    payment, change⟩

def linkedIndex (nHeight : Nat) : CBlockIndex :=
  { hash := BitVec.ofNat 256 (10000 + nHeight), pprev := some (BitVec.ofNat 256 (9999 + nHeight)), nHeight }

def linkedNode (nHeight : Nat) : ChainState :=
  { nodeAt nHeight with
    mapBlockIndex := [298, 299, 300].foldl (fun m h => m.insert (linkedIndex h).hash (linkedIndex h)) ∅
    tip := some (linkedIndex nHeight) }

def quietPosition : BlockPosition (linkedNode 298) := ⟨linkedIndex 299, linkedIndex 298, rfl, rfl⟩

def emptyingPosition : BlockPosition (linkedNode 299) := ⟨linkedIndex 300, linkedIndex 299, rfl, rfl⟩

def oldStakeTx : CTransaction := spendTx 1000 [⟨900, 1⟩] [stakeMarker, payTo 40]

def oldStakeView : CoinsView :=
  ((({ hashBlock := 10298 } : CoinsView).addOutputs oldStakeTx 251).addOutputs (spendTx 1001 [⟨901, 0⟩] [payTo 100]) 150).addOutputs
    (spendTx 1002 [⟨902, 0⟩] [payTo 100]) 150

def quietBlock : CBlock :=
  { hash := 10299, hashPrevBlock := 10298, vtx := [mintTx 2000 [stakeMarker], spendTx 2001 [⟨1002, 0⟩] [stakeMarker, payTo 132]] }

def stakeSpendTx : CTransaction := spendTx 2103 [⟨1000, 1⟩] [payTo 39]

/-- The block spends both outputs of a coinstake of height 251, the empty one and the value. -/
def emptyingBlock : CBlock :=
  { hash := 10300
    hashPrevBlock := 10299
    vtx := [mintTx 2100 [stakeMarker], spendTx 2101 [⟨1001, 0⟩] [stakeMarker, payTo 132], spendTx 2102 [⟨1000, 0⟩] [payTo 0],
      stakeSpendTx] }

def oldStakeTxs : List CTransaction :=
  [oldStakeTx, spendTx 1001 [⟨901, 0⟩] [payTo 100], spendTx 1002 [⟨902, 0⟩] [payTo 100]] ++ quietBlock.vtx ++ emptyingBlock.vtx

/-- Inputs with an empty script are not standard. -/
def scriptedInputs : MempoolPolicy :=
  { lenientPolicy with
    areInputsStandard := fun tx view =>
      tx.vin.all fun i => !((view.coinsAt i.prevout.hash).outputAt i.prevout.n).scriptPubKey.isEmpty }

def oldStakeChain : TipChain := { pindexTip := some (linkedIndex 298), state := { pcoinsTip := oldStakeView, mempool := {} } }

theorem oldStakeTxs_hashed : Hashed (· ∈ oldStakeTxs) := hashed_of_increasing (by decide) (by decide) (by decide)

theorem oldStakeChain_starts : oldStakeChain.Starts (· ∈ oldStakeTxs) := by
  have empty : ∀ tx, ¬oldStakeChain.state.mempool.Holds tx := by
    intro tx held
    simp [oldStakeChain, CTxMemPool.Holds] at held
  refine ⟨rfl, ⟨?_, CTxMemPool.exact_empty, fun tx held => absurd held (empty tx)⟩, ?_, ?_⟩
  · exact CoinsView.addOutputs_clean (by decide) (CoinsView.addOutputs_clean (by decide)
      (CoinsView.addOutputs_clean (by decide) (CoinsView.clean_empty _) 251) 150) 150
  · exact .of_fed (fun tx held => absurd held (empty tx)) (Subrelation.wf (fun h => absurd h.1 (empty _)) oldStakeTxs_hashed.acyclic)
  · exact (((CoinsView.From.of_empty _ _ _ _).addOutputs (by decide) (by decide) (by decide)).addOutputs (by decide)
      (by decide) (by decide)).addOutputs (by decide) (by decide) (by decide)

/-- A block that empties a coinstake entry is disconnected, and then the block before it. -/
theorem unmarked_stake_stays_in_pool : Hashed (· ∈ oldStakeTxs) ∧ oldStakeChain.Starts (· ∈ oldStakeTxs) ∧
    ¬∀ n, TipRun (· ∈ oldStakeTxs) (fun _ => True) oldStakeChain n → ∀ s checks policy b rest tip, n.blocks = b :: rest →
      disconnectTip s checks policy b.block b.pindex b.pprev b.blockUndo n.state = .ok tip →
      tip.SpendsMature (· ∈ oldStakeTxs) s.network (b.pprev.nHeight + 1) := by
  refine ⟨oldStakeTxs_hashed, oldStakeChain_starts, fun always => ?_⟩
  have run : ((connectBlock (linkedNode 298) passingChecks quietBlock (linkedIndex 299) (some (linkedIndex 298))
        oldStakeView).toOption.bind fun c => c.blockundo.bind fun blockUndo =>
      (connectBlock (linkedNode 299) passingChecks emptyingBlock (linkedIndex 300) (some (linkedIndex 299)) c.view).toOption.bind
        fun c' => c'.blockundo.bind fun blockUndo' =>
      (disconnectTip (linkedNode 300) passingChecks scriptedInputs emptyingBlock (linkedIndex 300) (linkedIndex 299) blockUndo'
        { pcoinsTip := c'.view
          mempool := ((({} : CTxMemPool).removeForBlock quietBlock.vtx).1.removeForBlock emptyingBlock.vtx).1 }).toOption.bind fun tip =>
      (disconnectTip (linkedNode 299) passingChecks scriptedInputs quietBlock (linkedIndex 299) (linkedIndex 298) blockUndo
        tip).toOption.map fun tip => ((tip.mempool.mapTx.lookup 2103).map CTxMemPoolEntry.tx,
          tip.pcoinsTip.isOutputAvailable ⟨1000, 1⟩, (tip.pcoinsTip.coinsAt 1000).nHeight)) =
      some (some stakeSpendTx, true, 251) := by decide
  obtain ⟨c, accepted, rest⟩ := Option.bind_eq_some_iff.mp run
  obtain ⟨blockUndo, stored, rest⟩ := Option.bind_eq_some_iff.mp rest
  obtain ⟨c', accepted', rest⟩ := Option.bind_eq_some_iff.mp rest
  obtain ⟨blockUndo', stored', rest⟩ := Option.bind_eq_some_iff.mp rest
  obtain ⟨tip, undone, rest⟩ := Option.bind_eq_some_iff.mp rest
  obtain ⟨last, undone', shown⟩ := Option.map_eq_some_iff.mp rest
  replace accepted := Checked.ok_of_toOption accepted
  replace accepted' := Checked.ok_of_toOption accepted'
  obtain ⟨pooled, shown⟩ := Prod.mk.inj shown
  obtain ⟨available, height⟩ := Prod.mk.inj shown
  have first : TipRun (· ∈ oldStakeTxs) (fun _ => True) oldStakeChain _ :=
    .single (.connect quietPosition rfl (by decide) accepted stored (connectTip_of accepted))
  have second := first.tail (.connect emptyingPosition rfl (by decide) accepted' stored' (connectTip_of accepted'))
  have third := second.tail (.disconnect rfl trivial (Checked.ok_of_toOption undone))
  have mature := always _ third _ _ _ _ _ _ rfl (Checked.ok_of_toOption undone')
  obtain ⟨entry, found, spender⟩ := Option.map_eq_some_iff.mp pooled
  have held : last.mempool.Holds stakeSpendTx := ⟨entry, found, spender⟩
  have young := mature stakeSpendTx held ⟨1000, 1⟩ (by decide) available oldStakeTx (by decide) rfl (by decide)
  rw [height] at young
  have early : ¬(299 : Int) - 251 ≥ 49 := by decide
  exact early young

end Reorganisation

end SchillingCoin
