import Mathlib.Data.Fintype.Card
import Mathlib.Order.WellFounded
import SchillingCoin.Mining.Selection

/-!
What the selection of transactions for a block comes to, for every order in which the queue gives them: a valid sequence of transactions of
the pool, and a reason for each one that is left.
-/

namespace SchillingCoin

namespace SelectContext

variable {Double : Type}

def Depends (pool : CTxMemPool) (a b : CTransaction) : Prop := pool.Holds a ∧ pool.Holds b ∧ ∃ o ∈ a.prevouts, o.hash = b.hash

/-- A pool whose inputs are there: in the coins view or among the outputs of another transaction of the pool, without cycles and double
spends. -/
structure Sourced (ctx : SelectContext Double) (view : CoinsView) (pool : CTxMemPool) : Prop where
  clean : view.Clean
  keyed : ∀ hash entry, pool.mapTx.lookup hash = some entry → entry.tx.hash = hash
  inputs : ∀ tx, pool.Holds tx → ∀ o ∈ tx.prevouts,
    view.isOutputAvailable o = true ∨ ∃ parent, pool.Holds parent ∧ parent.hash = o.hash ∧ o.n < parent.vout.length
  noCycles : ∀ tx, ¬ Relation.TransGen (Depends pool) tx tx
  noDoubleSpends : ∀ a b i j o, pool.Holds a → pool.Holds b → CTxMemPool.SpendsAt a i o → CTxMemPool.SpendsAt b j o → a = b ∧ i = j
  values : ∀ tx, pool.Holds tx → ∃ nValueOut, tx.getValueOut = some nValueOut
  noNull : (∀ n, view.isOutputAvailable ⟨0, n⟩ = false) ∧ ∀ tx, pool.Holds tx → tx.hash ≠ 0
  indexed : (ctx.chain.mapBlockIndex.lookup view.hashBlock).isSome = true

theorem haveCoins_of_available {v : CoinsView} (available : v.isOutputAvailable o = true) : v.haveCoins o.hash = true := by
  have inside := CCoins.lt_of_isAvailable available
  unfold CoinsView.haveCoins
  rw [Bool.not_eq_true', List.isEmpty_eq_false_iff]
  exact List.ne_nil_of_length_pos (by omega)

variable {pool : CTxMemPool} {ctx : SelectContext Double} {view : CoinsView}

theorem mem_transactions (keyed : ∀ hash entry, pool.mapTx.lookup hash = some entry → entry.tx.hash = hash) :
    tx ∈ transactions pool ↔ pool.Holds tx := by
  unfold transactions CTxMemPool.Holds
  rw [List.mem_map]
  constructor
  · rintro ⟨⟨hash, entry⟩, member, rfl⟩
    have found := StdMap.mem_entries_iff.mp member
    exact ⟨entry, by rw [keyed hash entry found]; exact found, rfl⟩
  · rintro ⟨entry, found, rfl⟩
    exact ⟨⟨entry.tx.hash, entry⟩, StdMap.mem_entries_iff.mpr found, rfl⟩

theorem nodup_transactions
    (keyed : ∀ hash entry, pool.mapTx.lookup hash = some entry → entry.tx.hash = hash) :
    ((transactions pool).map CTransaction.hash).Nodup := by
  have keys : (transactions pool).map CTransaction.hash = pool.mapTx.entries.map Sigma.fst := by
    unfold transactions
    rw [List.map_map]
    apply List.map_congr_left
    rintro ⟨hash, entry⟩ member
    exact keyed hash entry (StdMap.mem_entries_iff.mp member)
  rw [keys]
  exact pool.mapTx.nodupKeys

theorem Sourced.parent_eq (_ : ctx.Sourced view pool) (first : pool.Holds a) (second : pool.Holds b) (same : a.hash = b.hash) :
    a = b := by
  obtain ⟨entry, found, rfl⟩ := first
  obtain ⟨other, found', rfl⟩ := second
  rw [same, found'] at found
  rw [Option.some.inj found]

theorem Sourced.noSpends (sourced : ctx.Sourced view pool) (held : pool.Holds tx) : tx.hasZerocoinSpendInputs = false := by
  rw [← Bool.not_eq_true]
  intro spends
  obtain ⟨txin, member, isSpend⟩ := List.any_eq_true.mp spends
  have zero : txin.prevout.hash = 0 := by
    unfold CTxIn.isZerocoinSpend at isSpend
    rw [Bool.and_eq_true] at isSpend
    exact beq_iff_eq.mp isSpend.1
  have named : txin.prevout = ⟨0, txin.prevout.n⟩ := by rw [← zero]
  rcases sourced.inputs tx held txin.prevout (List.mem_map_of_mem member) with available | ⟨parent, pooled, hash, _⟩
  · rw [named, sourced.noNull.1] at available
    exact Bool.false_ne_true available
  · exact sourced.noNull.2 parent pooled (hash.trans zero)

theorem Sourced.known (sourced : ctx.Sourced view pool) {tx : CTransaction} (held : pool.Holds tx)
    {o : COutPoint} (member : o ∈ tx.prevouts) :
    view.haveCoins o.hash = true ∨ pool.exists_ o.hash = true := by
  rcases sourced.inputs tx held o member with available | ⟨parent, ⟨entry, found, _⟩, hash, _⟩
  · exact Or.inl (haveCoins_of_available available)
  · exact Or.inr (CTxMemPool.exists_iff.mpr ⟨entry, hash ▸ found⟩)

def WaitsFor (view : CoinsView) (pool : CTxMemPool) (tx : CTransaction) (hash : uint256) : Prop :=
  (∃ o ∈ tx.prevouts, o.hash = hash) ∧ view.haveCoins hash = false ∧ pool.exists_ hash = true

variable {ctx : SelectContext Double} {view : CoinsView} {pool : CTxMemPool}

theorem readInputs_waiting (inputs : ∀ txin ∈ vin, txin.prevout ∈ tx.prevouts)
    (known : ∀ txin ∈ vin, view.haveCoins txin.prevout.hash = true ∨ pool.exists_ txin.prevout.hash = true) (sound : q.Sound)
    (last : q.waiters = before ++ [{ item := ctx.priority tx, needs }]) (some_ : needs ≠ ∅)
    (waits : ∀ hash ∈ needs, WaitsFor view pool tx hash) :
    ∃ q' needs', ctx.readInputs view pool tx vin (some before.length) q = .ok (q', some before.length) ∧ q'.Sound ∧
      q'.ready = q.ready ∧ q'.waiters = before ++ [{ item := ctx.priority tx, needs := needs' }] ∧ needs' ≠ ∅ ∧
      ∀ hash ∈ needs', WaitsFor view pool tx hash := by
  induction vin generalizing q needs with
  | nil => exact ⟨q, needs, rfl, sound, rfl, last, some_, waits⟩
  | cons txin rest ih =>
    have inputs' : ∀ i ∈ rest, i.prevout ∈ tx.prevouts := fun i member => inputs i (List.mem_cons_of_mem _ member)
    have known' := fun i member => known i (List.mem_cons_of_mem txin member)
    unfold readInputs
    by_cases have_ : view.haveCoins txin.prevout.hash = true
    · rw [if_pos have_]
      exact ih inputs' known' sound last some_ waits
    · rw [if_neg have_]
      have pooled := (known txin List.mem_cons_self).resolve_left have_
      rw [if_neg (by rw [pooled]; exact Bool.false_ne_true)]
      have needed := q.need_last last txin.prevout.hash
      obtain ⟨q', needs', done, sound', ready, waiters, some', waits'⟩ := ih inputs' known' (Dependers.need_sound sound _ _) needed
        (Finset.insert_ne_empty _ _) (fun hash member => by
          rcases Finset.mem_insert.mp member with rfl | old
          · exact ⟨⟨_, inputs txin List.mem_cons_self, rfl⟩, Bool.not_eq_true _ |>.mp have_, pooled⟩
          · exact waits hash old)
      exact ⟨q', needs', done, sound', ready, waiters, some', waits'⟩

theorem readInputs_start {vin : List CTxIn} (inputs : ∀ txin ∈ vin, txin.prevout ∈ tx.prevouts)
    (known : ∀ txin ∈ vin, view.haveCoins txin.prevout.hash = true ∨ pool.exists_ txin.prevout.hash = true)
    {q : SelectQueue Double} (sound : q.Sound) :
    ctx.readInputs view pool tx vin none q = .ok (q, none) ∨
    ∃ q' i needs', ctx.readInputs view pool tx vin none q = .ok (q', some i) ∧ q'.Sound ∧
      q'.ready = q.ready ∧ q'.waiters = q.waiters ++ [{ item := ctx.priority tx, needs := needs' }] ∧ needs' ≠ ∅ ∧
      ∀ hash ∈ needs', WaitsFor view pool tx hash := by
  induction vin with
  | nil => exact Or.inl rfl
  | cons txin rest ih =>
    have inputs' : ∀ i ∈ rest, i.prevout ∈ tx.prevouts := fun i member => inputs i (List.mem_cons_of_mem _ member)
    have known' := fun i member => known i (List.mem_cons_of_mem txin member)
    unfold readInputs
    by_cases have_ : view.haveCoins txin.prevout.hash = true
    · rw [if_pos have_]
      exact ih inputs' known'
    · rw [if_neg have_]
      have pooled := (known txin List.mem_cons_self).resolve_left have_
      rw [if_neg (by rw [pooled]; exact Bool.false_ne_true)]
      have pushed := Dependers.push_sound sound (ctx.priority tx)
      have needed := Dependers.need_last ({ q with waiters := q.waiters ++ [{ item := ctx.priority tx, needs := ∅ }] } : SelectQueue Double)
        rfl txin.prevout.hash
      obtain ⟨q', needs', done, sound', ready, waiters, some', waits'⟩ := readInputs_waiting inputs' known'
        (Dependers.need_sound pushed _ _) needed (Finset.insert_ne_empty _ _) (fun hash member => by
          rcases Finset.mem_insert.mp member with rfl | old
          · exact ⟨⟨_, inputs txin List.mem_cons_self, rfl⟩, Bool.not_eq_true _ |>.mp have_, pooled⟩
          · exact absurd old (Finset.notMem_empty hash))
      exact Or.inr ⟨q', _, needs', done, sound', ready, waiters, some', waits'⟩

structure Loaded (ctx : SelectContext Double) (view : CoinsView) (pool : CTxMemPool) (q : SelectQueue Double)
    (txs : List CTransaction) : Prop where
  sound : q.Sound
  account : ((q.ready ++ q.pending).map TxPriority.tx).Perm (txs.filter ctx.considers)
  waits : ∀ w ∈ q.waiters, ∀ hash ∈ w.needs, WaitsFor view pool w.item.tx hash

theorem Loaded.enqueue {txs : List CTransaction} (loaded : ctx.Loaded view pool q txs) (sourced : ctx.Sourced view pool)
    {tx : CTransaction} (held : pool.Holds tx) : ctx.Loaded view pool (ctx.enqueue view pool q tx) (txs ++ [tx]) := by
  unfold SelectContext.enqueue
  by_cases considered : ctx.considers tx = true
  · have filtered : (txs ++ [tx]).filter ctx.considers = txs.filter ctx.considers ++ [tx] := by
      rw [List.filter_append, List.filter_cons_of_pos considered, List.filter_nil]
    rw [if_neg (by rw [considered]; exact Bool.false_ne_true)]
    have inputs : ∀ txin ∈ tx.vin, txin.prevout ∈ tx.prevouts := fun txin member => List.mem_map_of_mem member
    rcases @readInputs_start Double ctx view pool tx tx.vin inputs (fun txin member => sourced.known held (inputs txin member)) q
      loaded.sound with
      alone | ⟨q', i, needs', done, sound', ready, waiters, some', waits'⟩
    · rw [alone]
      refine ⟨loaded.sound, ?_, loaded.waits⟩
      have account := loaded.account.append_right [tx]
      rw [filtered]
      refine List.Perm.trans ?_ account
      have moved : (q.ready ++ [ctx.priority tx] ++ q.pending).Perm (q.ready ++ q.pending ++ [ctx.priority tx]) := by
        rw [List.append_assoc, List.append_assoc]
        exact List.perm_append_comm.append_left q.ready
      have last : (q.ready ++ q.pending ++ [ctx.priority tx]).map TxPriority.tx = (q.ready ++ q.pending).map TxPriority.tx ++ [tx] :=
        List.map_append
      exact last ▸ moved.map TxPriority.tx
    · rw [done]
      refine ⟨sound', ?_, ?_⟩
      · have pending : q'.pending = q.pending ++ [ctx.priority tx] := by
          unfold Dependers.pending
          rw [waiters, Dependers.pendingOf_append, Dependers.pendingOf_cons, if_neg some']
          rfl
        dsimp only
        rw [filtered, ready, pending, ← List.append_assoc, List.map_append]
        exact loaded.account.append_right [tx]
      · intro w member
        rw [waiters] at member
        rcases List.mem_append.mp member with old | new
        · exact loaded.waits w old
        · obtain rfl := List.mem_singleton.mp new
          exact waits'
  · have filtered : (txs ++ [tx]).filter ctx.considers = txs.filter ctx.considers := by
      rw [List.filter_append, List.filter_cons_of_neg considered, List.filter_nil, List.append_nil]
    rw [if_pos (by rw [Bool.eq_false_iff.mpr considered]; rfl)]
    exact ⟨loaded.sound, filtered ▸ loaded.account, loaded.waits⟩

theorem loaded_start (sourced : ctx.Sourced view pool) : ctx.Loaded view pool (ctx.start view pool).queue (transactions pool) := by
  have all : ∀ txs : List CTransaction, (∀ tx ∈ txs, pool.Holds tx) →
      ctx.Loaded view pool (txs.foldl (ctx.enqueue view pool) {}) txs := by
    intro txs
    induction txs using List.reverseRecOn with
    | nil =>
      intro _
      exact ⟨fun i w there => (nomatch there), List.Perm.refl _, fun w member => absurd member List.not_mem_nil⟩
    | append_singleton txs tx ih =>
      intro held
      rw [List.foldl_append]
      exact (ih fun t member => held t (List.mem_append_left _ member)).enqueue sourced
        (held tx (List.mem_append_right _ (List.mem_singleton_self tx)))
  exact all _ fun tx member => (mem_transactions sourced.keyed).mp member

theorem checkInputCoins_noAbort (nValueIn : Int) (vin : List CTxIn) :
    checkInputCoins network v nSpendHeight nValueIn vin ≠ .error (.abort reason) := by
  induction vin generalizing nValueIn with
  | nil => exact fun stop => by cases stop
  | cons txin rest ih =>
    unfold checkInputCoins
    dsimp only
    split
    · exact fun stop => by cases stop
    · split
      · exact fun stop => by cases stop
      · exact ih _

theorem checkFee_noAbort (value : tx.getValueOut = some nValueOut) (nValueIn : Int) :
    checkFee network tx nValueIn ≠ .error (.abort reason) := by
  intro failed
  unfold checkFee at failed
  split at failed
  · cases failed
  · rw [value, orAbort, Checked.ok_bind] at failed
    have second := Checked.past_refuse (by exact nofun) failed
    have third := Checked.past_refuse (by exact nofun) second
    exact nomatch (Checked.refuse_error third).2

structure Spendable (ctx : SelectContext Double) (v : CoinsView) (tx : CTransaction) : Prop where
  clean : v.Clean
  indexed : (ctx.chain.mapBlockIndex.lookup v.hashBlock).isSome = true
  notCoinBase : tx.isCoinBase = false
  noSpends : tx.hasZerocoinSpendInputs = false
  distinct : tx.prevouts.Nodup
  value : ∃ nValueOut, tx.getValueOut = some nValueOut
  available : ∀ o ∈ tx.prevouts, v.isOutputAvailable o = true

namespace Spendable

variable {v : CoinsView} {tx : CTransaction}

section

variable (spendable : ctx.Spendable v tx)

include spendable

theorem updateCoins :
    ∃ w txundo, v.updateCoins tx ctx.nHeight = some (w, txundo) ∧ w.Clean ∧ w.hashBlock = v.hashBlock ∧
      ∀ o, w.isOutputAvailable o = true → v.isOutputAvailable o = true ∨ o.hash = tx.hash := by
  obtain ⟨nValueOut, value⟩ := spendable.value
  have nonneg := (getValueOut_spec value).1
  obtain ⟨mid, undos, spent, block⟩ := CoinsView.spendInputs_of_available
    (fun txin member => spendable.available _ (List.mem_map_of_mem member)) spendable.distinct
  obtain ⟨clean, left⟩ := CoinsView.spendInputs_available spendable.clean spent
  refine ⟨mid.addOutputs tx ctx.nHeight, undos, ?_, CoinsView.addOutputs_clean nonneg clean _, block, fun o available => ?_⟩
  · unfold CoinsView.updateCoins
    rw [spendable.notCoinBase, spendable.noSpends, spent]
    rfl
  · unfold CoinsView.isOutputAvailable at available
    rw [CoinsView.coinsAt_addOutputs nonneg] at available
    split at available
    · next same => exact Or.inr same
    · have here := left o
      unfold CoinsView.isOutputAvailable at here
      rw [available] at here
      exact Or.inl (Bool.and_eq_true_iff.mp here.symm).1

theorem getOutputFor (member : txin ∈ tx.vin) : ∃ out, v.getOutputFor txin = some out := by
  have available := spendable.available _ (List.mem_map_of_mem member)
  unfold CoinsView.getOutputFor
  rw [if_pos available]
  exact ⟨_, List.getElem?_eq_getElem (CCoins.lt_of_isAvailable available)⟩

theorem getValueIn : ∃ nValueIn, ctx.getValueIn v tx = some nValueIn := by
  have all : ∀ (vin : List CTxIn) (n : Int), (∀ txin ∈ vin, ∃ out, v.getOutputFor txin = some out) →
      ∃ nValueIn, vin.foldlM (fun nResult i => (v.getOutputFor i).map fun o => int64 (nResult + o.nValue)) n = some nValueIn := by
    intro vin
    induction vin with
    | nil => exact fun n _ => ⟨n, rfl⟩
    | cons txin rest ih =>
      intro n outputs
      obtain ⟨out, found⟩ := outputs txin List.mem_cons_self
      obtain ⟨nValueIn, total⟩ := ih (int64 (n + out.nValue)) fun i member => outputs i (List.mem_cons_of_mem _ member)
      refine ⟨nValueIn, ?_⟩
      rw [List.foldlM_cons, found]
      exact total
  unfold SelectContext.getValueIn CoinsView.getValueIn
  rw [if_neg (by rw [spendable.noSpends]; exact Bool.false_ne_true), if_neg (by rw [spendable.notCoinBase]; exact Bool.false_ne_true)]
  exact all tx.vin 0 fun txin member => spendable.getOutputFor member

theorem getP2SHSigOpCount : ∃ n, getP2SHSigOpCount v tx = some n := by
  have all : ∀ vin : List CTxIn, (∀ txin ∈ vin, ∃ out, v.getOutputFor txin = some out) → ∃ spent, vin.mapM v.getOutputFor = some spent := by
    intro vin
    induction vin with
    | nil => exact fun _ => ⟨[], rfl⟩
    | cons txin rest ih =>
      intro outputs
      obtain ⟨out, found⟩ := outputs txin List.mem_cons_self
      obtain ⟨spent, later⟩ := ih fun i member => outputs i (List.mem_cons_of_mem _ member)
      refine ⟨out :: spent, ?_⟩
      rw [List.mapM_cons, found, later]
      rfl
  obtain ⟨spent, found⟩ := all tx.vin fun txin member => spendable.getOutputFor member
  unfold SelectContext.getP2SHSigOpCount
  rw [if_neg (by rw [spendable.notCoinBase, spendable.noSpends]; exact Bool.false_ne_true), found]
  exact ⟨_, rfl⟩

theorem checkInputs : ∃ valid, ctx.checkInputs v tx = some valid := by
  unfold SelectContext.checkInputs
  cases result : SchillingCoin.checkInputs ctx.chain ctx.checks v tx true false with
  | ok _ => exact ⟨true, rfl⟩
  | error e =>
    cases e with
    | dos n reason => exact ⟨false, rfl⟩
    | invalid reason => exact ⟨false, rfl⟩
    | abort reason =>
      exfalso
      obtain ⟨pindexPrev, found⟩ := Option.isSome_iff_exists.mp spendable.indexed
      obtain ⟨nValueOut, value⟩ := spendable.value
      unfold SchillingCoin.checkInputs at result
      rw [spendable.notCoinBase, spendable.noSpends, Bool.or_false, if_neg Bool.false_ne_true, found, orAbort] at result
      have past := Checked.past_refuse (by exact nofun) result
      rw [Checked.ok_bind] at past
      rcases Checked.bind_error past with coins | ⟨nValueIn, _, past⟩
      · exact checkInputCoins_noAbort 0 tx.vin coins
      rcases Checked.bind_error past with fee | ⟨_, _, past⟩
      · exact checkFee_noAbort value nValueIn fee
      · exact nomatch (Checked.refuse_error past).2

end

end Spendable

structure Fits (ctx : SelectContext Double) (v : CoinsView) (entry : BlockEntry) : Prop where
  haveInputs : v.haveInputs entry.tx = true
  available : ∀ o ∈ entry.tx.prevouts, v.isOutputAvailable o = true
  checked : ctx.checkInputs v entry.tx = some true
  fees : ∃ nValueIn nValueOut, ctx.getValueIn v entry.tx = some nValueIn ∧ entry.tx.getValueOut = some nValueOut ∧
    entry.nTxFees = int64 (nValueIn - nValueOut)
  sigOps : ∃ nP2SHSigOps, SelectContext.getP2SHSigOpCount v entry.tx = some nP2SHSigOps ∧
    entry.nTxSigOps = entry.tx.getLegacySigOpCount + nP2SHSigOps

theorem tryAppend_cases (spendable : ctx.Spendable s.view tx) (have_ : s.view.haveInputs tx = true) :
    (∃ test, ctx.tryAppend s tx = some (s, some test)) ∨
    ∃ entry view', entry.tx = tx ∧ ctx.tryAppend s tx = some (append s entry view', none) ∧ ctx.Fits s.view entry ∧
      s.nBlockSigOps + entry.nTxSigOps < MAX_BLOCK_SIGOPS_CURRENT ∧
      (s.view.updateCoins tx ctx.nHeight).map Prod.fst = some view' ∧ view'.Clean ∧ view'.hashBlock = s.view.hashBlock ∧
      ∀ o, view'.isOutputAvailable o = true → s.view.isOutputAvailable o = true ∨ o.hash = tx.hash := by
  obtain ⟨nValueIn, valueIn⟩ := spendable.getValueIn
  obtain ⟨nValueOut, valueOut⟩ := spendable.value
  obtain ⟨nP2SHSigOps, counted⟩ := spendable.getP2SHSigOpCount
  obtain ⟨valid, checked⟩ := spendable.checkInputs
  obtain ⟨view', txundo, updated, clean, block, available⟩ := spendable.updateCoins
  unfold tryAppend
  rw [valueIn, valueOut, counted]
  simp only [Option.bind_eq_bind, Option.bind_some]
  split
  · exact Or.inl ⟨_, rfl⟩
  · next sigOps =>
    rw [checked, Option.bind_some]
    cases valid with
    | false => exact Or.inl ⟨_, rfl⟩
    | true =>
      rw [updated]
      refine Or.inr ⟨_, view', rfl, rfl, ⟨have_, spendable.available, checked, ⟨nValueIn, nValueOut, valueIn, valueOut, rfl⟩,
        nP2SHSigOps, counted, rfl⟩, ?_, rfl, clean, block, available⟩
      exact Nat.lt_of_not_le sigOps

def viewAfter (ctx : SelectContext Double) (view : CoinsView) (entries : List BlockEntry) : Option CoinsView :=
  entries.foldlM (fun v entry => (v.updateCoins entry.tx ctx.nHeight).map Prod.fst) view

structure Placed (ctx : SelectContext Double) (view : CoinsView) (before : List BlockEntry) (entry : BlockEntry) : Prop where
  fits : ∃ v, ctx.viewAfter view before = some v ∧ ctx.Fits v entry
  sources : ∀ o ∈ entry.tx.prevouts, view.isOutputAvailable o = true ∨ ∃ e ∈ before, e.tx.hash = o.hash

structure Inv (ctx : SelectContext Double) (view : CoinsView) (pool : CTxMemPool) (s : BlockSelection Double) (out : List CTransaction) :
    Prop where
  sound : s.queue.Sound
  account : (s.entries.map BlockEntry.tx ++ out ++ (s.queue.ready ++ s.queue.pending).map TxPriority.tx).Perm
    ((transactions pool).filter ctx.considers)
  waits : ∀ w ∈ s.queue.waiters, ∀ hash ∈ w.needs, WaitsFor view pool w.item.tx hash ∧ ∀ entry ∈ s.entries, entry.tx.hash ≠ hash
  clean : s.view.Clean
  block : s.view.hashBlock = view.hashBlock
  viewed : ctx.viewAfter view s.entries = some s.view
  sources : ∀ o, s.view.isOutputAvailable o = true → view.isOutputAvailable o = true ∨ ∃ e ∈ s.entries, e.tx.hash = o.hash
  placed : ∀ before entry after, s.entries = before ++ entry :: after → ctx.Placed view before entry
  size : s.nBlockSize = 1000 + (s.entries.map fun e => e.tx.getSerializeSize).sum ∧
    (s.entries = [] ∨ s.nBlockSize < ctx.nBlockMaxSize)
  sigOps : s.nBlockSigOps = 100 + (s.entries.map BlockEntry.nTxSigOps).sum ∧ s.nBlockSigOps < MAX_BLOCK_SIGOPS_CURRENT
  fees : s.nFees = int64 (s.entries.map BlockEntry.nTxFees).sum

variable {s : BlockSelection Double} {out : List CTransaction}

theorem inv_start (sourced : ctx.Sourced view pool) : ctx.Inv view pool (ctx.start view pool) [] := by
  have loaded := loaded_start sourced
  refine ⟨loaded.sound, loaded.account, fun w member hash isNeed => ⟨loaded.waits w member hash isNeed, ?_⟩, sourced.clean, rfl, rfl,
    fun o available => Or.inl available, ?_, ⟨rfl, Or.inl rfl⟩, ⟨rfl, show 100 < MAX_BLOCK_SIGOPS_CURRENT by decide⟩, rfl⟩
  · exact fun entry member => absurd member List.not_mem_nil
  · intro before entry after same
    exact absurd same.symm (List.append_ne_nil_of_right_ne_nil _ (List.cons_ne_nil _ _))

namespace Inv

theorem held (sourced : ctx.Sourced view pool) (inv : ctx.Inv view pool s out) {tx : CTransaction}
    (member : tx ∈ s.entries.map BlockEntry.tx ++ out ++ (s.queue.ready ++ s.queue.pending).map TxPriority.tx) :
    pool.Holds tx ∧ ctx.considers tx = true := by
  have inPool := inv.account.mem_iff.mp member
  rw [List.mem_filter] at inPool
  exact ⟨(mem_transactions sourced.keyed).mp inPool.1, inPool.2⟩

theorem take (inv : ctx.Inv view pool s out) (there : s.queue.ready[i]? = some e) :
    ctx.Inv view pool { s with queue := { s.queue with ready := s.queue.ready.eraseIdx i } } (out ++ [e.tx]) := by
  obtain ⟨inside, rfl⟩ := List.getElem?_eq_some_iff.mp there
  refine { inv with account := List.Perm.trans ?_ inv.account }
  have taken := (List.getElem_cons_eraseIdx_perm inside).map TxPriority.tx
  have moved : (out ++ [s.queue.ready[i].tx] ++ (s.queue.ready.eraseIdx i).map TxPriority.tx).Perm
      (out ++ s.queue.ready.map TxPriority.tx) := by
    rw [List.append_assoc]
    exact taken.append_left out
  have all := (moved.append_right (s.queue.pending.map TxPriority.tx)).append_left (s.entries.map BlockEntry.tx)
  show (s.entries.map BlockEntry.tx ++ (out ++ [s.queue.ready[i].tx]) ++
    (s.queue.ready.eraseIdx i ++ s.queue.pending).map TxPriority.tx).Perm _
  simpa only [List.map_append, List.append_assoc] using all

theorem sortByFee (inv : ctx.Inv view pool s out) (e : TxPriority Double) : ctx.Inv view pool (ctx.sortByFee s e) out := { inv with }

theorem spendable (inv : ctx.Inv view pool s out) (sourced : ctx.Sourced view pool) (held : pool.Holds tx)
    (considered : ctx.considers tx = true) (have_ : s.view.haveInputs tx = true) : ctx.Spendable s.view tx := by
  have noSpends := sourced.noSpends held
  have notCoinBase : tx.isCoinBase = false := by
    unfold considers at considered
    simp only [Bool.and_eq_true, Bool.not_eq_true', Bool.or_eq_false_iff] at considered
    exact considered.1.1.1
  refine ⟨inv.clean, by rw [inv.block]; exact sourced.indexed, notCoinBase, noSpends, ?_, sourced.values tx held, ?_⟩
  · apply List.nodup_iff_getElem?_ne_getElem?.mpr
    intro i j before inside same
    have inside' : i < tx.prevouts.length := before.trans inside
    have there := List.getElem?_eq_getElem inside'
    have first : CTxMemPool.SpendsAt tx i tx.prevouts[i] := by
      unfold CTxMemPool.SpendsAt
      rw [← List.getElem?_map]
      exact there
    have second : CTxMemPool.SpendsAt tx j tx.prevouts[i] := by
      unfold CTxMemPool.SpendsAt
      rw [← List.getElem?_map]
      exact same.symm.trans there
    exact absurd (sourced.noDoubleSpends tx tx i j _ held held first second).2 (Nat.ne_of_lt before)
  · exact CoinsView.available_of_haveInputs (CTransaction.spendsCoins_iff.mpr ⟨notCoinBase, noSpends⟩) have_

theorem append (inv : ctx.Inv view pool s (out ++ [tx])) (isTx : entry.tx = tx) (fits : ctx.Fits s.view entry)
    (size : s.nBlockSize + tx.getSerializeSize < ctx.nBlockMaxSize)
    (sigOps : s.nBlockSigOps + entry.nTxSigOps < MAX_BLOCK_SIGOPS_CURRENT)
    (updated : (s.view.updateCoins tx ctx.nHeight).map Prod.fst = some view') (clean : view'.Clean)
    (block : view'.hashBlock = s.view.hashBlock)
    (available : ∀ o, view'.isOutputAvailable o = true → s.view.isOutputAvailable o = true ∨ o.hash = tx.hash) :
    ctx.Inv view pool (SelectContext.append s entry view') out := by
  subst isTx
  have shrinks := s.queue.wake_shrinks entry.tx.hash
  refine
    { sound := shrinks.sound inv.sound
      account := List.Perm.trans ?_ inv.account
      waits := ?_
      clean := clean
      block := block.trans inv.block
      viewed := ?_
      sources := ?_
      placed := ?_
      size := ⟨?_, Or.inr size⟩
      sigOps := ⟨?_, sigOps⟩
      fees := ?_ }
  · have woken := (s.queue.wake_perm entry.tx.hash).map TxPriority.tx
    show ((s.entries ++ [entry]).map BlockEntry.tx ++ out ++
      ((s.queue.wake entry.tx.hash).ready ++ (s.queue.wake entry.tx.hash).pending).map TxPriority.tx).Perm _
    refine List.Perm.append ?_ woken
    rw [List.map_append, List.append_assoc]
    exact (List.perm_append_comm).append_left _
  · intro w' member hash isNeed
    obtain ⟨i, inside, rfl⟩ := List.getElem_of_mem member
    obtain ⟨w, atStart, item, fewer⟩ := shrinks.waiters i _ (List.getElem?_eq_getElem inside)
    obtain ⟨waitsFor, others⟩ := inv.waits w (List.mem_of_getElem? atStart) hash (fewer isNeed)
    refine ⟨item ▸ waitsFor, fun e isEntry => ?_⟩
    rcases List.mem_append.mp isEntry with old | new
    · exact others e old
    · obtain rfl := List.mem_singleton.mp new
      intro same
      exact Dependers.wake_gone inv.sound e.tx.hash member (same ▸ isNeed)
  · show ctx.viewAfter view (s.entries ++ [entry]) = some view'
    have before := inv.viewed
    unfold viewAfter at *
    rw [List.foldlM_append, before]
    simpa using updated
  · intro o here
    rcases available o here with old | new
    · rcases inv.sources o old with initial | ⟨e, isEntry, hash⟩
      · exact Or.inl initial
      · exact Or.inr ⟨e, List.mem_append_left _ isEntry, hash⟩
    · exact Or.inr ⟨entry, List.mem_append_right _ (List.mem_singleton_self entry), new.symm⟩
  · intro before e after same
    have same : s.entries ++ [entry] = before ++ e :: after := same
    rcases List.eq_nil_or_concat after with rfl | ⟨init, last, rfl⟩
    · obtain ⟨rfl, isEntry⟩ := List.append_inj' same rfl
      obtain rfl := List.singleton_inj.mp isEntry
      exact ⟨⟨s.view, inv.viewed, fits⟩, fun o member => inv.sources o (fits.available o member)⟩
    · rw [List.concat_eq_append, ← List.cons_append, ← List.append_assoc] at same
      exact inv.placed before e init (List.append_inj' same rfl).1
  · show s.nBlockSize + entry.tx.getSerializeSize = 1000 + ((s.entries ++ [entry]).map fun e => e.tx.getSerializeSize).sum
    rw [inv.size.1, List.map_append, List.sum_append, List.map_singleton, List.sum_singleton]
    omega
  · show s.nBlockSigOps + entry.nTxSigOps = 100 + ((s.entries ++ [entry]).map BlockEntry.nTxSigOps).sum
    rw [inv.sigOps.1, List.map_append, List.sum_append, List.map_singleton, List.sum_singleton]
    omega
  · show int64 (s.nFees + entry.nTxFees) = int64 ((s.entries ++ [entry]).map BlockEntry.nTxFees).sum
    rw [inv.fees, List.map_append, List.sum_append, List.map_singleton, List.sum_singleton]
    exact Int.bmod_add_bmod

end Inv

theorem turn_spec (sourced : ctx.Sourced view pool) (inv : ctx.Inv view pool s (out ++ [e.tx])) :
    ∃ next test, ctx.turn s e = some (next, test) ∧
      ctx.Inv view pool next (if test.isSome then out ++ [e.tx] else out) ∧
      next.queue.ready.length + next.queue.pending.length = s.queue.ready.length + s.queue.pending.length := by
  have inPool := inv.held sourced (List.mem_append_left _ (List.mem_append_right _ (List.mem_append_right _ (List.mem_singleton_self e.tx))))
  unfold turn
  split
  · exact ⟨_, _, rfl, inv, rfl⟩
  next size =>
  split
  · exact ⟨_, _, rfl, inv, rfl⟩
  split
  · exact ⟨_, _, rfl, inv, rfl⟩
  split
  · exact ⟨_, _, rfl, inv.sortByFee e, rfl⟩
  next have_ =>
  rw [Bool.not_eq_true', Bool.not_eq_false] at have_
  have sorted := inv.sortByFee e
  rcases tryAppend_cases (sorted.spendable sourced inPool.1 inPool.2 have_) have_ with
    ⟨test, done⟩ | ⟨entry, view', isTx, done, fits, sigOps, updated, clean, block, available⟩
  · exact ⟨_, _, done, sorted, rfl⟩
  · refine ⟨_, _, done, sorted.append isTx fits (Nat.lt_of_not_le size) sigOps updated clean block available, ?_⟩
    have woken := (s.queue.wake_perm entry.tx.hash).length_eq
    rw [List.length_append, List.length_append] at woken
    exact woken

def refusedIn (turns : List (CTransaction × Option LoopTest)) : List CTransaction :=
  turns.filterMap fun t => if t.2.isSome then some t.1 else none

theorem loop_spec (sourced : ctx.Sourced view pool) (pick : Nat → Nat) (inv : ctx.Inv view pool s out)
    (enough : s.queue.ready.length + s.queue.pending.length ≤ rounds) :
    ∃ last turns, ctx.loop pick rounds s = some (last, turns) ∧ ctx.Inv view pool last (out ++ refusedIn turns) ∧
      last.queue.ready = [] := by
  induction rounds generalizing s out with
  | zero =>
    have empty : s.queue.ready = [] := List.eq_nil_of_length_eq_zero (by omega)
    refine ⟨s, [], ?_, by simpa [refusedIn] using inv, empty⟩
    rw [loop, empty]
    rfl
  | succ rounds ih =>
    unfold loop
    cases there : s.queue.ready[pick rounds % s.queue.ready.length]? with
    | none =>
      have past := List.getElem?_eq_none_iff.mp there
      have empty : s.queue.ready = [] := by
        by_contra some_
        have := Nat.mod_lt (pick rounds) (List.length_pos_of_ne_nil some_)
        omega
      exact ⟨s, [], rfl, by simpa [refusedIn] using inv, empty⟩
    | some e =>
      obtain ⟨next, test, turned, kept, length⟩ := turn_spec sourced (inv.take there)
      have inside := (List.getElem?_eq_some_iff.mp there).1
      have shorter : (s.queue.ready.eraseIdx (pick rounds % s.queue.ready.length)).length + 1 = s.queue.ready.length := by
        rw [List.length_eraseIdx_of_lt inside]
        omega
      have fewer : next.queue.ready.length + next.queue.pending.length =
          (s.queue.ready.eraseIdx (pick rounds % s.queue.ready.length)).length + s.queue.pending.length := length
      obtain ⟨last, turns, ran, done, empty⟩ := ih kept (by omega)
      refine ⟨last, (e.tx, test) :: turns, ?_, ?_, empty⟩
      · simp only [turned, ran, Option.bind_eq_bind, Option.bind_some, Option.pure_def]
      · cases test with
        | none => exact done
        | some test =>
          have all : out ++ refusedIn ((e.tx, some test) :: turns) = out ++ [e.tx] ++ refusedIn turns := by
            rw [List.append_assoc]
            rfl
          rw [all]
          exact done

theorem Sourced.wellFounded (sourced : ctx.Sourced view pool) :
    WellFounded fun b a : {tx // pool.Holds tx} => Relation.TransGen (Depends pool) a.1 b.1 := by
  have listed : ∀ tx, tx ∈ (transactions pool).toFinset ↔ pool.Holds tx := fun tx =>
    List.mem_toFinset.trans (mem_transactions sourced.keyed)
  have : Finite {tx // pool.Holds tx} := @Finite.of_fintype _ (Fintype.subtype (transactions pool).toFinset listed)
  have : IsTrans {tx // pool.Holds tx} fun b a => Relation.TransGen (Depends pool) a.1 b.1 :=
    ⟨fun a b c first second => Relation.TransGen.trans second first⟩
  have : Std.Irrefl fun b a : {tx // pool.Holds tx} => Relation.TransGen (Depends pool) a.1 b.1 := ⟨fun a => sourced.noCycles a.1⟩
  exact Finite.wellFounded_of_trans_of_irrefl _

theorem Inv.reason (sourced : ctx.Sourced view pool) (inv : ctx.Inv view pool s out) (empty : s.queue.ready = [])
    (held : pool.Holds tx) (absent : tx ∉ s.entries.map BlockEntry.tx) :
    ∃ other, Relation.ReflTransGen (Depends pool) tx other ∧ pool.Holds other ∧ (ctx.considers other = false ∨ other ∈ out) := by
  have all : ∀ a : {tx // pool.Holds tx}, a.1 ∉ s.entries.map BlockEntry.tx →
      ∃ other, Relation.ReflTransGen (Depends pool) a.1 other ∧ pool.Holds other ∧ (ctx.considers other = false ∨ other ∈ out) := by
    intro a
    induction a using sourced.wellFounded.induction with
    | _ a ih =>
      obtain ⟨tx, held⟩ := a
      intro absent
      cases considered : ctx.considers tx with
      | false => exact ⟨tx, .refl, held, Or.inl considered⟩
      | true =>
        have counted := inv.account.mem_iff.mpr (List.mem_filter.mpr ⟨(mem_transactions sourced.keyed).mpr held, considered⟩)
        rw [empty, List.nil_append, List.mem_append, List.mem_append] at counted
        rcases counted with (inBlock | isOut) | waiting
        · exact absurd inBlock absent
        · exact ⟨tx, .refl, held, Or.inr isOut⟩
        · -- It still waits for a transaction of the pool that is not in the block either.
          obtain ⟨e, isPending, rfl⟩ := List.mem_map.mp waiting
          obtain ⟨w, member, needs, rfl⟩ := Dependers.mem_pending.mp isPending
          obtain ⟨hash, isNeed⟩ := Finset.nonempty_iff_ne_empty.mpr needs
          obtain ⟨⟨⟨o, isInput, named⟩, _, pooled⟩, others⟩ := inv.waits w member hash isNeed
          obtain ⟨entry, found⟩ := CTxMemPool.exists_iff.mp pooled
          have key := sourced.keyed hash entry found
          have parent : pool.Holds entry.tx := ⟨entry, by rw [key]; exact found, rfl⟩
          have depends : Depends pool w.item.tx entry.tx := ⟨held, parent, o, isInput, named.trans key.symm⟩
          obtain ⟨other, leads, isHeld, why⟩ := ih ⟨entry.tx, parent⟩ (.single depends) (fun inBlock => by
            obtain ⟨e, isEntry, same⟩ := List.mem_map.mp inBlock
            exact others e isEntry (by rw [same, key]))
          exact ⟨other, .head depends leads, isHeld, why⟩
  exact all ⟨tx, held⟩ absent

/-- What is asked of the transactions of a block. A transaction that is left was refused in a turn or before the loop, or it depends on one
that was. -/
structure Selected (ctx : SelectContext Double) (view : CoinsView) (pool : CTxMemPool) (s : BlockSelection Double)
    (turns : List (CTransaction × Option LoopTest)) : Prop where
  held : ∀ entry ∈ s.entries, pool.Holds entry.tx
  distinct : (s.entries.map fun entry => entry.tx.hash).Nodup
  fits : ∀ before entry after, s.entries = before ++ entry :: after →
    ∃ v, ctx.viewAfter view before = some v ∧ ctx.Fits v entry
  parents : ∀ before entry after, s.entries = before ++ entry :: after → ∀ parent, pool.Holds parent →
    (∃ o ∈ entry.tx.prevouts, o.hash = parent.hash ∧ view.isOutputAvailable o = false) → parent ∈ before.map BlockEntry.tx
  size : s.entries = [] ∨ (s.entries.map fun entry => entry.tx.getSerializeSize).sum + 1000 < ctx.nBlockMaxSize
  sigOps : (s.entries.map BlockEntry.nTxSigOps).sum + 100 < MAX_BLOCK_SIGOPS_CURRENT
  fees : s.nFees = int64 (s.entries.map BlockEntry.nTxFees).sum
  reasons : ∀ tx, pool.Holds tx → tx ∉ s.entries.map BlockEntry.tx →
    ∃ other, Relation.ReflTransGen (Depends pool) tx other ∧ pool.Holds other ∧
      (ctx.considers other = false ∨ ∃ test, (other, some test) ∈ turns)

/-- For every order of the queue the selection ends, with a valid sequence of transactions. -/
theorem select_valid (ctx : SelectContext Double) (view : CoinsView) (pool : CTxMemPool) (sourced : ctx.Sourced view pool)
    (pick : Nat → Nat) : ∃ s turns, ctx.select pick view pool = some (s, turns) ∧ ctx.Selected view pool s turns := by
  have start := inv_start sourced
  have count : (((ctx.start view pool).queue.ready ++ (ctx.start view pool).queue.pending).map TxPriority.tx).length =
      ((transactions pool).filter ctx.considers).length := start.account.length_eq
  have few := List.length_filter_le ctx.considers (transactions pool)
  rw [List.length_map, List.length_append] at count
  obtain ⟨s, turns, ran, inv, empty⟩ := loop_spec sourced pick start (count.le.trans few)
  have inPool : ∀ entry ∈ s.entries, pool.Holds entry.tx := fun entry member =>
    (inv.held sourced (List.mem_append_left _ (List.mem_append_left _ (List.mem_map_of_mem member)))).1
  refine ⟨s, turns, ran, inPool, ?_, fun before entry after same => (inv.placed before entry after same).fits, ?_, ?_, ?_, inv.fees, ?_⟩
  · have nodup := (nodup_transactions sourced.keyed).sublist ((List.filter_sublist (p := ctx.considers)).map CTransaction.hash)
    have same := (inv.account.map CTransaction.hash).nodup_iff.mpr nodup
    rw [List.map_append, List.map_append, List.map_map] at same
    exact (List.nodup_append.mp (List.nodup_append.mp same).1).1
  · rintro before entry after same parent held ⟨o, isInput, named, missing⟩
    rcases (inv.placed before entry after same).sources o isInput with there | ⟨e, isBefore, hash⟩
    · rw [missing] at there
      exact absurd there Bool.false_ne_true
    · have isEntry : e ∈ s.entries := by
        rw [same]
        exact List.mem_append_left _ isBefore
      obtain rfl := sourced.parent_eq (inPool e isEntry) held (hash.trans named)
      exact List.mem_map_of_mem isBefore
  · rcases inv.size with ⟨total, none | below⟩
    · exact Or.inl none
    · exact Or.inr (by omega)
  · have := inv.sigOps
    omega
  · intro tx held absent
    obtain ⟨other, leads, isHeld, why⟩ := inv.reason sourced empty held absent
    refine ⟨other, leads, isHeld, why.imp_right fun isOut => ?_⟩
    rw [List.nil_append, refusedIn, List.mem_filterMap] at isOut
    obtain ⟨⟨t, test⟩, member, same⟩ := isOut
    cases test with
    | none => exact nomatch same
    | some test =>
      obtain rfl := Option.some.inj same
      exact ⟨test, member⟩

def payment (nLockTime : Nat) : CTransaction :=
  { hash := 2, vin := [{ prevout := ⟨1, 0⟩, nSequence := 0 }], vout := [{ nValue := 50, scriptPubKey := [0x51] }], nLockTime }

def lockedChange : CTransaction :=
  { hash := 3, vin := [{ prevout := ⟨2, 0⟩ }], vout := [{ nValue := 40, scriptPubKey := [0x51] }] }

def paymentPool (nLockTime : Nat) : CTxMemPool where
  mapTx := ((∅ : StdMap uint256 CTxMemPoolEntry).insert 2 ⟨payment nLockTime, 100⟩).insert 3 ⟨lockedChange, 100⟩

def lockedPool : CTxMemPool := paymentPool 1000

def lockedCoin : CTransaction := { hash := 1, vin := [], vout := [{ nValue := 100, scriptPubKey := [0x51] }] }

def lockedView : CoinsView := ({ hashBlock := 10059 } : CoinsView).addOutputs lockedCoin 5

def sizedContext (blockMaxSizeArg : Int) : SelectContext Nat where
  chain := nodeAt 59
  checks := passingChecks
  nHeight := 60
  getAdjustedTime := 1540198700
  dPriority _ := 0
  feeRate _ := 0
  priorityRaised _ := false
  nFeeDelta _ := 0
  allowFree _ := true
  minRelayTxFee := 0
  blockMaxSizeArg := blockMaxSizeArg
  blockPrioritySizeArg := 0
  blockMinSizeArg := 0

theorem paymentPool_holds : (paymentPool nLockTime).Holds tx ↔ tx = payment nLockTime ∨ tx = lockedChange := by
  unfold CTxMemPool.Holds paymentPool
  simp only [StdMap.lookup_insert_ite]
  constructor
  · rintro ⟨entry, found, rfl⟩
    split at found
    · obtain rfl := Option.some.inj found
      exact Or.inr rfl
    · split at found
      · obtain rfl := Option.some.inj found
        exact Or.inl rfl
      · exact nomatch found
  · rintro (rfl | rfl)
    · exact ⟨⟨payment nLockTime, 100⟩, rfl, rfl⟩
    · exact ⟨⟨lockedChange, 100⟩, rfl, rfl⟩

theorem lockedView_coinsAt (t : uint256) : lockedView.coinsAt t = if t = 1 then CCoins.fromTx lockedCoin 5 else {} := by
  have nonneg : ∀ o ∈ lockedCoin.vout, 0 ≤ o.nValue := by decide
  exact CoinsView.coinsAt_addOutputs nonneg _ 5 t

theorem lockedView_null (n : Nat) : lockedView.isOutputAvailable ⟨0, n⟩ = false := by
  unfold CoinsView.isOutputAvailable
  rw [lockedView_coinsAt, if_neg (show ¬ (0 : uint256) = 1 by decide)]
  rfl

theorem lockedView_clean : lockedView.Clean := CoinsView.addOutputs_clean (by decide) (CoinsView.clean_empty 10059) 5

/-- The view after a block in which the payment was already. -/
def paidView : CoinsView := lockedView.addOutputs (payment 0) 7

theorem paidView_null (n : Nat) : paidView.isOutputAvailable ⟨0, n⟩ = false := by
  have nonneg : ∀ o ∈ (payment 0).vout, 0 ≤ o.nValue := by decide
  unfold CoinsView.isOutputAvailable paidView
  have other : ¬(0 : uint256) = (payment 0).hash := by decide
  rw [CoinsView.coinsAt_addOutputs nonneg, if_neg other]
  exact lockedView_null n

theorem paymentPool_sourced (blockMaxSizeArg : Int) (nLockTime : Nat) (clean : view.Clean)
    (coin : view.isOutputAvailable ⟨1, 0⟩ = true) (noNull : ∀ n, view.isOutputAvailable ⟨0, n⟩ = false)
    (best : view.hashBlock = 10059) :
    (sizedContext blockMaxSizeArg).Sourced view (paymentPool nLockTime) where
  clean := clean
  keyed := by
    intro hash entry found
    unfold paymentPool at found
    simp only [StdMap.lookup_insert_ite] at found
    split at found
    · next same =>
      obtain rfl := Option.some.inj found
      exact same.symm
    · split at found
      · next same =>
        obtain rfl := Option.some.inj found
        exact same.symm
      · exact nomatch found
  inputs := by
    intro tx held o member
    rcases paymentPool_holds.mp held with rfl | rfl
    · obtain rfl := List.mem_singleton.mp member
      exact Or.inl coin
    · obtain rfl := List.mem_singleton.mp member
      exact Or.inr ⟨payment nLockTime, paymentPool_holds.mpr (Or.inl rfl), rfl, Nat.one_pos⟩
  noCycles := by
    -- The hash falls along a dependency.
    have falls : ∀ a b, Depends (paymentPool nLockTime) a b → b.hash < a.hash := by
      rintro a b ⟨first, second, o, member, named⟩
      rcases paymentPool_holds.mp first with rfl | rfl
      · obtain rfl := List.mem_singleton.mp member
        rcases paymentPool_holds.mp second with rfl | rfl
        · exact absurd named (show (1 : uint256) ≠ 2 by decide)
        · exact absurd named (show (1 : uint256) ≠ 3 by decide)
      · obtain rfl := List.mem_singleton.mp member
        rcases paymentPool_holds.mp second with rfl | rfl
        · exact (show (2 : uint256) < 3 by decide)
        · exact absurd named (show (2 : uint256) ≠ 3 by decide)
    intro tx cycle
    have less : ∀ a b, Relation.TransGen (Depends (paymentPool nLockTime)) a b → b.hash < a.hash := by
      intro a b leads
      induction leads with
      | single step => exact falls _ _ step
      | tail _ step ih => exact BitVec.lt_trans (falls _ _ step) ih
    exact absurd (less tx tx cycle) (BitVec.lt_irrefl _)
  noDoubleSpends := by
    have only : ∀ a i o, (paymentPool nLockTime).Holds a → CTxMemPool.SpendsAt a i o → i = 0 ∧
        ((a = payment nLockTime ∧ o = ⟨1, 0⟩) ∨ (a = lockedChange ∧ o = ⟨2, 0⟩)) := by
      rintro a i o held spends
      rcases paymentPool_holds.mp held with rfl | rfl
      · rcases i with _ | i
        · exact ⟨rfl, Or.inl ⟨rfl, (Option.some.inj spends).symm⟩⟩
        · exact nomatch spends
      · rcases i with _ | i
        · exact ⟨rfl, Or.inr ⟨rfl, (Option.some.inj spends).symm⟩⟩
        · exact nomatch spends
    intro a b i j o first second spendsA spendsB
    obtain ⟨rfl, isA⟩ := only a i o first spendsA
    obtain ⟨rfl, isB⟩ := only b j o second spendsB
    rcases isA with ⟨rfl, rfl⟩ | ⟨rfl, rfl⟩
    · rcases isB with ⟨rfl, _⟩ | ⟨_, other⟩
      · exact ⟨rfl, rfl⟩
      · exact absurd other (by decide)
    · rcases isB with ⟨_, other⟩ | ⟨rfl, _⟩
      · exact absurd other (by decide)
      · exact ⟨rfl, rfl⟩
  values := by
    intro tx held
    rcases paymentPool_holds.mp held with rfl | rfl
    · exact ⟨50, rfl⟩
    · exact ⟨40, rfl⟩
  noNull := by
    refine ⟨noNull, fun tx held => ?_⟩
    rcases paymentPool_holds.mp held with rfl | rfl
    · exact (show (2 : uint256) ≠ 0 by decide)
    · exact (show (3 : uint256) ≠ 0 by decide)
  indexed := by
    rw [best]
    exact (show ((nodeAt 59).mapBlockIndex.lookup 10059).isSome = true by decide)

theorem lockedPool_sourced (blockMaxSizeArg : Int) : (sizedContext blockMaxSizeArg).Sourced lockedView lockedPool :=
  paymentPool_sourced blockMaxSizeArg 1000 lockedView_clean (by decide) lockedView_null rfl

/-- The payment and the one that spends its change are both selected. -/
theorem payment_and_change_selected : ∃ s turns,
    (sizedContext 750000).select id lockedView (paymentPool 0) = some (s, turns) ∧
      s.entries.map BlockEntry.tx = [payment 0, lockedChange] ∧ (sizedContext 750000).Selected lockedView (paymentPool 0) s turns := by
  have sourced := paymentPool_sourced 750000 0 lockedView_clean (by decide) lockedView_null rfl
  obtain ⟨s, turns, ran, selected⟩ := select_valid (sizedContext 750000) lockedView (paymentPool 0) sourced id
  refine ⟨s, turns, ran, ?_, selected⟩
  have both : ((sizedContext 750000).select id lockedView (paymentPool 0)).map (fun r => r.1.entries.map BlockEntry.tx) =
      some [payment 0, lockedChange] := by decide
  rw [ran] at both
  exact Option.some.inj both

theorem loop_empty (pick : Nat → Nat) (rounds : Nat) (empty : s.queue.ready = []) : ctx.loop pick rounds s = some (s, []) := by
  cases rounds with
  | zero =>
    rw [loop, empty]
    rfl
  | succ rounds =>
    rw [loop, empty]
    rfl

/-- Blocks of the smallest size have no room, the change of a payment that is not final waits for ever, and a transaction does not wait for
one of the pool whose outputs the view has. -/
theorem locked_change_left :
    (¬ ∀ (ctx : SelectContext Nat) (view : CoinsView) (pool : CTxMemPool), ctx.Sourced view pool → ∀ (pick : Nat → Nat)
      (s : BlockSelection Nat) (turns : List (CTransaction × Option LoopTest)), ctx.select pick view pool = some (s, turns) →
        (s.entries.map fun entry => entry.tx.getSerializeSize).sum + 1000 < ctx.nBlockMaxSize) ∧
    (¬ ∀ (ctx : SelectContext Nat) (view : CoinsView) (pool : CTxMemPool), ctx.Sourced view pool → ∀ (pick : Nat → Nat)
      (s : BlockSelection Nat) (turns : List (CTransaction × Option LoopTest)), ctx.select pick view pool = some (s, turns) →
        ∀ tx, pool.Holds tx → ctx.isFinalTx tx = true → tx.isCoinBase = false → tx.isCoinStake = false →
          tx ∉ s.entries.map BlockEntry.tx →
            ∃ other test, Relation.ReflTransGen (Depends pool) tx other ∧ (other, some test) ∈ turns) ∧
    ¬ ∀ (ctx : SelectContext Nat) (view : CoinsView) (pool : CTxMemPool), ctx.Sourced view pool → ∀ (pick : Nat → Nat)
      (s : BlockSelection Nat) (turns : List (CTransaction × Option LoopTest)), ctx.select pick view pool = some (s, turns) →
        ∀ before tx after, s.entries.map BlockEntry.tx = before ++ tx :: after → ∀ parent, pool.Holds parent →
          (∃ o ∈ tx.prevouts, o.hash = parent.hash) → parent ∈ before := by
  have still (blockMaxSizeArg : Int) : (sizedContext blockMaxSizeArg).select id lockedView lockedPool =
      some ((sizedContext blockMaxSizeArg).start lockedView lockedPool, []) := loop_empty _ _ rfl
  refine ⟨?_, ?_, ?_⟩
  · intro room
    have below := room (sizedContext 1000) lockedView lockedPool (lockedPool_sourced 1000) id _ _ (still 1000)
    exact absurd below (by decide)
  · intro refused
    obtain ⟨other, test, _, member⟩ := refused (sizedContext 750000) lockedView lockedPool (lockedPool_sourced 750000) id _ _
      (still 750000) lockedChange (paymentPool_holds.mpr (Or.inr rfl)) (by decide) (by decide) (by decide) List.not_mem_nil
    exact absurd member List.not_mem_nil
  · intro ordered
    have sourced : (sizedContext 750000).Sourced paidView (paymentPool 0) :=
      paymentPool_sourced 750000 0 (CoinsView.addOutputs_clean (by decide) lockedView_clean 7) (by decide) paidView_null rfl
    have childFirst : ((sizedContext 750000).select (fun _ => 0) paidView (paymentPool 0)).map (fun r => r.1.entries.map BlockEntry.tx) =
        some [lockedChange, payment 0] := by decide
    obtain ⟨⟨s, turns⟩, ran, entries⟩ := Option.map_eq_some_iff.mp childFirst
    have parent := ordered (sizedContext 750000) paidView (paymentPool 0) sourced (fun _ => 0) s turns ran [] lockedChange [payment 0]
      entries (payment 0) (paymentPool_holds.mpr (Or.inl rfl)) ⟨⟨2, 0⟩, by decide, rfl⟩
    exact absurd parent List.not_mem_nil

end SelectContext

end SchillingCoin
