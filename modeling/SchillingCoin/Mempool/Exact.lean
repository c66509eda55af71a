import Mathlib.Data.BitVec
import Mathlib.Logic.Relation
import SchillingCoin.Lib.Run
import SchillingCoin.Mempool.TxMemPool
import SchillingCoin.Validation.CheckBlock

/-!
The indexes of the memory pool are exact: `mapNextTx` records the inputs of the transactions in
`mapTx` and nothing else, and `totalTxSize` is their size. Every removal is a sequence of removals
of single entries, so one lemma about `removeEntry` covers them all.
-/

namespace SchillingCoin

namespace CTxMemPool

open Relation (ReflTransGen)

def Drops (p q : CTxMemPool) : Prop := ∃ hash entry, p.mapTx.lookup hash = some entry ∧ q = p.removeEntry hash entry

abbrev Shrinks : CTxMemPool → CTxMemPool → Prop := ReflTransGen Drops

theorem removeLoop_shrinks (fRecursive : Bool) (rounds : Nat) (queue : List uint256) (p : CTxMemPool) :
    p.Shrinks (removeLoop fRecursive rounds queue p).1 := by
  induction rounds generalizing queue p with
  | zero => exact .refl
  | succ rounds ih =>
    simp only [removeLoop]
    split
    · exact .refl
    · split
      · exact .refl
      · rename_i entry found
        exact .head ⟨_, entry, found, rfl⟩ (ih _ _)

theorem remove_shrinks (p : CTxMemPool) (tx : CTransaction) (fRecursive : Bool) : p.Shrinks (p.remove tx fRecursive).1 :=
  removeLoop_shrinks _ _ _ _

theorem removeAll_shrinks (p : CTxMemPool) (txs : List CTransaction) : p.Shrinks (p.removeAll txs) := by
  induction txs generalizing p with
  | nil => exact .refl
  | cons tx txs ih => exact (remove_shrinks p tx true).trans (ih _)

theorem removeConflict_shrinks (tx : CTransaction) (r : CTxMemPool × List CTransaction) (txin : CTxIn) :
    r.1.Shrinks (removeConflict tx r txin).1 := by
  unfold removeConflict
  split
  · exact .refl
  · split
    · exact remove_shrinks _ _ _
    · exact .refl

theorem removeConflicts_shrinks (p : CTxMemPool) (tx : CTransaction) : p.Shrinks (p.removeConflicts tx).1 := by
  have loop : ∀ (vin : List CTxIn) (r : CTxMemPool × List CTransaction), r.1.Shrinks (vin.foldl (removeConflict tx) r).1 := by
    intro vin
    induction vin with
    | nil => exact fun _ => .refl
    | cons txin vin ih => exact fun r => (removeConflict_shrinks tx r txin).trans (ih _)
  exact loop tx.vin (p, [])

theorem removeForBlock_shrinks (p : CTxMemPool) (vtx : List CTransaction) : p.Shrinks (p.removeForBlock vtx).1 := by
  have loop : ∀ (vtx : List CTransaction) (r : CTxMemPool × List CTransaction), r.1.Shrinks (vtx.foldl removeBlockTx r).1 := by
    intro vtx
    induction vtx with
    | nil => exact fun _ => .refl
    | cons tx vtx ih =>
      intro r
      have here : r.1.Shrinks (removeBlockTx r tx).1 := (remove_shrinks r.1 tx false).trans (removeConflicts_shrinks _ tx)
      exact here.trans (ih _)
  exact loop vtx (p, [])

structure Exact (p : CTxMemPool) : Prop where
  keyed : ∀ hash entry, p.mapTx.lookup hash = some entry → entry.tx.hash = hash
  next : ∀ o it, p.mapNextTx.lookup o = some it ↔ p.Holds it.ptx ∧ SpendsAt it.ptx it.n o
  size : p.totalTxSize = BitVec.ofNat 64 (StdMap.sum (fun _ entry => entry.nTxSize) p.mapTx)

theorem exact_empty : Exact {} := by
  refine ⟨by simp, ?_, rfl⟩
  intro o it
  simp [Holds]

variable {p : CTxMemPool} {hash : uint256} {entry : CTxMemPoolEntry} {tx : CTransaction}

theorem Exact.holds (exact_ : p.Exact) (found : p.mapTx.lookup hash = some entry) : p.Holds entry.tx :=
  ⟨entry, by rw [exact_.keyed hash entry found, found], rfl⟩

theorem Exact.unique (exact_ : p.Exact) (held : p.Holds tx) (spends : SpendsAt tx i o) (held' : p.Holds tx')
    (spends' : SpendsAt tx' j o) : tx = tx' ∧ i = j := by
  have first := (exact_.next o ⟨tx, i⟩).mpr ⟨held, spends⟩
  have second := (exact_.next o ⟨tx', j⟩).mpr ⟨held', spends'⟩
  have same := Option.some.inj (first.symm.trans second)
  exact ⟨congrArg CInPoint.ptx same, congrArg CInPoint.n same⟩

theorem lookup_removeEntry (p : CTxMemPool) (hash : uint256) (entry : CTxMemPoolEntry) (o : COutPoint) :
    (p.removeEntry hash entry).mapNextTx.lookup o = if o ∈ entry.tx.prevouts then none else p.mapNextTx.lookup o := by
  have loop : ∀ (vin : List CTxIn) (next : StdMap COutPoint CInPoint),
      (vin.foldl (fun next txin => next.erase txin.prevout) next).lookup o =
        if o ∈ vin.map CTxIn.prevout then none else next.lookup o := by
    intro vin
    induction vin with
    | nil => simp
    | cons txin vin ih =>
      intro next
      rw [List.foldl_cons, ih, StdMap.lookup_erase_ite]
      by_cases here : o = txin.prevout
      · simp [here]
      · simp [here]
  exact loop entry.tx.vin p.mapNextTx

theorem holds_removeEntry : (p.removeEntry hash entry).Holds tx ↔ p.Holds tx ∧ tx.hash ≠ hash := by
  simp only [Holds, removeEntry, StdMap.lookup_erase_ite]
  by_cases here : tx.hash = hash
  · simp [here]
  · simp [here]

theorem removeEntry_exact (exact_ : p.Exact) (found : p.mapTx.lookup hash = some entry) :
    (p.removeEntry hash entry).Exact := by
  have held := exact_.holds found
  have key := exact_.keyed hash entry found
  constructor
  · intro h e kept
    simp only [removeEntry, StdMap.lookup_erase_ite] at kept
    split at kept
    · cases kept
    · exact exact_.keyed h e kept
  · intro o it
    rw [lookup_removeEntry, holds_removeEntry]
    by_cases spent : o ∈ entry.tx.prevouts
    · -- the only transaction that spends `o` is the one taken out
      obtain ⟨i, at_⟩ := mem_prevouts_iff.mp spent
      simp only [spent, if_true, reduceCtorEq, false_iff]
      rintro ⟨⟨stays, other⟩, spends⟩
      obtain ⟨same, _⟩ := exact_.unique stays spends held at_
      exact other (same ▸ key)
    · simp only [spent, if_false]
      rw [exact_.next]
      constructor
      · rintro ⟨stays, spends⟩
        refine ⟨⟨stays, ?_⟩, spends⟩
        rintro rfl
        obtain ⟨e, here, same⟩ := stays
        obtain rfl := Option.some.inj (here.symm.trans found)
        exact spent (mem_prevouts_iff.mpr ⟨it.n, same ▸ spends⟩)
      · rintro ⟨⟨stays, _⟩, spends⟩
        exact ⟨stays, spends⟩
  · have sum := StdMap.sum_erase (fun _ (e : CTxMemPoolEntry) => e.nTxSize) p.mapTx hash
    rw [StdMap.weightAt, found] at sum
    simp only [removeEntry, exact_.size, sum, Option.elim_some, BitVec.ofNat_add]
    exact add_sub_cancel_left _ _

theorem shrinks_exact (shrinks : p.Shrinks q) (exact_ : p.Exact) : q.Exact := by
  induction shrinks with
  | refl => exact exact_
  | tail _ drop ih =>
    obtain ⟨hash, entry, found, rfl⟩ := drop
    exact removeEntry_exact ih found

theorem lookup_insertInputs {vin : List CTxIn} {next : StdMap COutPoint CInPoint} (distinct : (vin.map CTxIn.prevout).Nodup)
    (o : COutPoint) (it : CInPoint) :
    ((vin.zipIdx k).foldl (fun next i => next.insert i.1.prevout ⟨tx, i.2⟩) next).lookup o = some it ↔
      (o ∉ vin.map CTxIn.prevout ∧ next.lookup o = some it) ∨
        ∃ j, it = ⟨tx, k + j⟩ ∧ (vin[j]?).map CTxIn.prevout = some o := by
  induction vin generalizing k next with
  | nil => simp
  | cons txin vin ih =>
    rw [List.map_cons, List.nodup_cons] at distinct
    rw [List.zipIdx_cons, List.foldl_cons, ih distinct.2, StdMap.lookup_insert_ite]
    by_cases here : o = txin.prevout
    · subst here
      simp only [distinct.1, not_false_eq_true, if_true, true_and, Option.some.injEq, List.map_cons, List.mem_cons,
        true_or, not_true_eq_false, false_and, false_or]
      constructor
      · rintro (rfl | ⟨j, rfl, spends⟩)
        · exact ⟨0, rfl, rfl⟩
        · rw [← List.getElem?_map] at spends
          exact absurd (List.mem_of_getElem? spends) distinct.1
      · rintro ⟨j, rfl, spends⟩
        cases j with
        | zero => exact Or.inl rfl
        | succ j =>
          rw [List.getElem?_cons_succ, ← List.getElem?_map] at spends
          exact absurd (List.mem_of_getElem? spends) distinct.1
    · simp only [here, if_false, List.map_cons, List.mem_cons, false_or]
      refine or_congr Iff.rfl ?_
      constructor
      · rintro ⟨j, rfl, spends⟩
        exact ⟨j + 1, by rw [Nat.add_assoc, Nat.add_comm 1], by simpa using spends⟩
      · rintro ⟨j, rfl, spends⟩
        cases j with
        | zero => exact absurd (Option.some.inj spends).symm here
        | succ j => exact ⟨j, by rw [Nat.add_assoc, Nat.add_comm 1], by simpa using spends⟩

/-- What `AcceptToMemoryPool` has checked when it adds a transaction without zerocoins. -/
structure Addable (p : CTxMemPool) (tx : CTransaction) : Prop where
  spendFree : tx.hasZerocoinSpendInputs = false
  absent : p.mapTx.lookup tx.hash = none
  unspent : ∀ o ∈ tx.prevouts, p.mapNextTx.lookup o = none
  distinct : checkDuplicateInputs [] tx.vin = .ok ()

theorem Addable.nodup (addable : p.Addable tx) : tx.prevouts.Nodup := by
  have nodup := checkDuplicateInputs_nodup (by simpa [CTransaction.hasZerocoinSpendInputs] using addable.spendFree)
    List.nodup_nil addable.distinct
  simpa [CTransaction.prevouts] using nodup

theorem holds_addUnchecked (entry : CTxMemPoolEntry) (absent : p.mapTx.lookup entry.tx.hash = none) :
    (p.addUnchecked entry.tx.hash entry).Holds tx ↔ tx = entry.tx ∨ p.Holds tx := by
  simp only [Holds, addUnchecked, StdMap.lookup_insert_ite]
  by_cases here : tx.hash = entry.tx.hash
  · simp only [here, if_true, Option.some.injEq]
    constructor
    · rintro ⟨_, rfl, rfl⟩
      exact Or.inl rfl
    · rintro (rfl | ⟨_, found, _⟩)
      · exact ⟨entry, rfl, rfl⟩
      · exact absurd (absent.symm.trans (here ▸ found)) (by simp)
  · simp only [here, if_false]
    refine ⟨Or.inr, fun h => h.resolve_left ?_⟩
    rintro rfl
    exact here rfl

theorem addUnchecked_exact (entry : CTxMemPoolEntry) (exact_ : p.Exact) (addable : p.Addable entry.tx) :
    (p.addUnchecked entry.tx.hash entry).Exact := by
  constructor
  · intro h e kept
    simp only [addUnchecked, StdMap.lookup_insert_ite] at kept
    split at kept
    · rename_i here
      rw [← Option.some.inj kept, here]
    · exact exact_.keyed h e kept
  · intro o it
    have stored : (p.addUnchecked entry.tx.hash entry).mapNextTx =
        entry.tx.vin.zipIdx.foldl (fun next i => next.insert i.1.prevout ⟨entry.tx, i.2⟩) p.mapNextTx := by
      simp [addUnchecked, addable.spendFree]
    rw [stored, lookup_insertInputs addable.nodup, holds_addUnchecked entry addable.absent, exact_.next]
    constructor
    · rintro (⟨_, held, spends⟩ | ⟨j, rfl, spends⟩)
      · exact ⟨Or.inr held, spends⟩
      · exact ⟨Or.inl rfl, by simpa [SpendsAt] using spends⟩
    · rintro ⟨new | held, spends⟩
      · rw [new] at spends
        exact Or.inr ⟨it.n, by rw [← new, Nat.zero_add], spends⟩
      · refine Or.inl ⟨fun mem => ?_, held, spends⟩
        -- an outpoint of the new transaction is spent by none in the pool
        have recorded := (exact_.next o it).mpr ⟨held, spends⟩
        rw [addable.unspent o mem] at recorded
        cases recorded
  · simp only [addUnchecked]
    rw [StdMap.sum_insert_absent _ _ addable.absent, exact_.size, BitVec.ofNat_add, add_comm]

inductive Op where
  | addUnchecked (entry : CTxMemPoolEntry)
  | remove (tx : CTransaction) (fRecursive : Bool)
  | removeConflicts (tx : CTransaction)
  | removeForBlock (vtx : List CTransaction)
  | removeCoinbaseSpends (network : Network) (accessCoins : uint256 → Option CCoins) (nMemPoolHeight : Nat)
  | clear

def apply (p : CTxMemPool) : Op → CTxMemPool
  | .addUnchecked entry => p.addUnchecked entry.tx.hash entry
  | .remove tx fRecursive => (p.remove tx fRecursive).1
  | .removeConflicts tx => (p.removeConflicts tx).1
  | .removeForBlock vtx => (p.removeForBlock vtx).1
  | .removeCoinbaseSpends network accessCoins nMemPoolHeight => p.removeCoinbaseSpends network accessCoins nMemPoolHeight
  | .clear => p.clear

/-- Only what `AcceptToMemoryPool` lets through is added; everything else may come at any time. -/
def Admissible (p : CTxMemPool) : Op → Prop
  | .addUnchecked entry => p.Addable entry.tx
  | _ => True

theorem apply_exact (exact_ : p.Exact) (admissible : p.Admissible op) : (p.apply op).Exact := by
  cases op with
  | addUnchecked entry => exact addUnchecked_exact entry exact_ admissible
  | remove tx fRecursive => exact shrinks_exact (remove_shrinks p tx fRecursive) exact_
  | removeConflicts tx => exact shrinks_exact (removeConflicts_shrinks p tx) exact_
  | removeForBlock vtx => exact shrinks_exact (removeForBlock_shrinks p vtx) exact_
  | removeCoinbaseSpends network accessCoins nMemPoolHeight => exact shrinks_exact (removeAll_shrinks p _) exact_
  | clear => exact exact_empty

/-- After any operations that the mempool is asked for, `mapNextTx` is the index of the inputs of its transactions, no outpoint is spent
twice, and `totalTxSize` is the sum of their sizes. -/
theorem mempool_indexes_exact {p : CTxMemPool} (reached : Run.Reached apply Admissible {} p) :
    (∀ o tx i, p.mapNextTx.lookup o = some ⟨tx, i⟩ ↔ p.Holds tx ∧ SpendsAt tx i o) ∧
    (∀ tx tx' i j o, p.Holds tx → SpendsAt tx i o → p.Holds tx' → SpendsAt tx' j o → tx = tx' ∧ i = j) ∧
    p.totalTxSize = BitVec.ofNat 64 (StdMap.sum (fun _ entry => entry.nTxSize) p.mapTx) := by
  have exact_ : p.Exact := reached.invariant Exact exact_empty fun _ _ kept meets => apply_exact kept meets
  refine ⟨fun o tx i => exact_.next o ⟨tx, i⟩, ?_, exact_.size⟩
  intro tx tx' i j o held spends held' spends'
  exact exact_.unique held spends held' spends'

def parentTx : CTransaction := { hash := 2, vin := [{ prevout := ⟨1, 0⟩ }], vout := [⟨5, [0x51], -10⟩, ⟨6, [0x52], -10⟩] }

def childTx : CTransaction := { hash := 3, vin := [{ prevout := ⟨2, 0⟩ }, { prevout := ⟨2, 1⟩ }], vout := [⟨9, [0x51], -10⟩] }

def orphanedPool : CTxMemPool :=
  (((({} : CTxMemPool).apply (.addUnchecked ⟨parentTx, 190⟩)).apply (.addUnchecked ⟨childTx, 260⟩)).apply
    (.remove parentTx false))

theorem orphaned_pool_exact :
    (∀ o tx i, orphanedPool.mapNextTx.lookup o = some ⟨tx, i⟩ ↔ orphanedPool.Holds tx ∧ SpendsAt tx i o) ∧
    orphanedPool.mapNextTx.lookup ⟨2, 1⟩ = some ⟨childTx, 1⟩ ∧ orphanedPool.totalTxSize = 260 := by
  have parent : ({} : CTxMemPool).Addable parentTx := ⟨by decide, by decide, by decide, by decide⟩
  have child : (({} : CTxMemPool).apply (.addUnchecked ⟨parentTx, 190⟩)).Addable childTx :=
    ⟨by decide, by decide, by decide, by decide⟩
  have reached : Run.Reached apply Admissible {} orphanedPool :=
    .step (Op.remove parentTx false) (.step (Op.addUnchecked _) (.step (Op.addUnchecked _) .start parent) child) trivial
  exact ⟨(mempool_indexes_exact reached).1, by decide, by decide⟩

end CTxMemPool

end SchillingCoin
