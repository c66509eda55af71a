import SchillingCoin.Mempool.Removal

/-!
What a recursive removal takes out of the memory pool: the transaction and everything in the pool that spends an output of it,
directly or through others.
-/

namespace SchillingCoin

namespace CTxMemPool

open Relation (ReflTransGen)

def SpendsOutput (p : CTxMemPool) (tx child : CTransaction) : Prop :=
  p.Holds child ∧ ∃ i < tx.vout.length, ⟨tx.hash, i⟩ ∈ child.prevouts

abbrev Descends (p : CTxMemPool) : CTransaction → CTransaction → Prop := ReflTransGen p.SpendsOutput

variable {p : CTxMemPool}

theorem Holds.unique (held : p.Holds tx) (held' : p.Holds tx') (same : tx.hash = tx'.hash) : tx = tx' := by
  obtain ⟨entry, found, rfl⟩ := held
  obtain ⟨entry', found', rfl⟩ := held'
  rw [same, found'] at found
  exact congrArg CTxMemPoolEntry.tx (Option.some.inj found).symm

theorem Exact.of_mem_children (exact_ : p.Exact) (held : p.Holds child) (listed : child.hash ∈ p.children tx) :
    p.SpendsOutput tx child := by
  obtain ⟨i, inside, it, recorded, same⟩ := CTxMemPool.mem_children.mp listed
  obtain ⟨spender, at_⟩ := (exact_.next _ _).mp recorded
  obtain rfl := spender.unique held same
  exact ⟨held, i, inside, mem_prevouts_iff.mpr ⟨it.n, at_⟩⟩

theorem dropWhile_absent (empty : p.mapTx.entries = []) (queue : List uint256) :
    (queue.dropWhile fun hash => !p.exists_ hash) = [] := by
  apply List.dropWhile_eq_nil_iff.mpr
  intro hash _
  simp [CTxMemPool.exists_, AList.lookup, empty]

theorem removeLoop_empty (fRecursive : Bool) (empty : p.mapTx.entries = []) (rounds : Nat)
    (queue : List uint256) : removeLoop fRecursive rounds queue p = (p, []) := by
  cases rounds with
  | zero => rfl
  | succ rounds => rw [removeLoop, dropWhile_absent empty]

theorem removeLoop_ends (fRecursive : Bool) {rounds' : Nat} (queue : List uint256) (enough : p.mapTx.entries.length ≤ rounds)
    (enough' : p.mapTx.entries.length ≤ rounds') :
    removeLoop fRecursive rounds queue p = removeLoop fRecursive rounds' queue p := by
  induction rounds generalizing p queue rounds' with
  | zero =>
    have empty : p.mapTx.entries = [] := List.length_eq_zero_iff.mp (by omega)
    rw [removeLoop_empty _ empty, removeLoop_empty _ empty]
  | succ rounds ih =>
    cases rounds' with
    | zero =>
      have empty : p.mapTx.entries = [] := List.length_eq_zero_iff.mp (by omega)
      rw [removeLoop_empty _ empty, removeLoop_empty _ empty]
    | succ rounds' =>
      rw [removeLoop, removeLoop]
      split
      · rfl
      · split
        · rfl
        · rename_i entry found
          have size := entries_removeEntry found
          rw [@ih _ rounds' _ (by omega) (by omega)]

theorem removeLoop_removed (exact_ : p.Exact) (Reached : CTransaction → Prop)
    (closed : ∀ tx child, Reached tx → p.SpendsOutput tx child → Reached child) (rounds : Nat)
    (queue : List uint256) (start : ∀ tx, p.Holds tx → tx.hash ∈ queue → Reached tx) :
    (∀ tx ∈ (removeLoop true rounds queue p).2, Reached tx ∧ p.Holds tx) ∧ (removeLoop true rounds queue p).2.Nodup ∧
      ∀ tx, p.Holds tx → ¬(removeLoop true rounds queue p).1.Holds tx → tx ∈ (removeLoop true rounds queue p).2 := by
  induction rounds generalizing p queue with
  | zero => exact ⟨(fun _ member => by cases member), List.nodup_nil, fun tx held gone => absurd held gone⟩
  | succ rounds ih =>
    rw [removeLoop]
    cases left : queue.dropWhile fun hash => !p.exists_ hash with
    | nil => exact ⟨(fun _ member => by cases member), List.nodup_nil, fun tx held gone => absurd held gone⟩
    | cons hash rest =>
      have queued : ∀ h ∈ hash :: rest, h ∈ queue := by
        intro h member
        rw [← left] at member
        exact (List.dropWhile_sublist _).subset member
      simp only [if_true]
      split
      · exact ⟨(fun _ member => by cases member), List.nodup_nil, fun tx held gone => absurd held gone⟩
      rename_i entry found
      have key := exact_.keyed _ _ found
      have held := exact_.holds found
      have reached : Reached entry.tx := start entry.tx held (by rw [key]; exact queued hash List.mem_cons_self)
      obtain ⟨inside, nodup, all⟩ := ih (removeEntry_exact exact_ found)
        (fun tx child before spends => closed tx child before ⟨(holds_removeEntry.mp spends.1).1, spends.2⟩)
        (rest ++ p.children entry.tx) (by
          intro tx stays listed
          have before := (holds_removeEntry.mp stays).1
          rcases List.mem_append.mp listed with waiting | child
          · exact start tx before (queued _ (List.mem_cons_of_mem _ waiting))
          · exact closed entry.tx tx reached (exact_.of_mem_children before child))
      refine ⟨?_, ?_, ?_⟩
      · intro tx member
        rcases List.mem_cons.mp member with rfl | later
        · exact ⟨reached, held⟩
        · exact ⟨(inside tx later).1, (holds_removeEntry.mp (inside tx later).2).1⟩
      · refine List.nodup_cons.mpr ⟨fun again => ?_, nodup⟩
        exact (holds_removeEntry.mp (inside _ again).2).2 key
      · intro tx before gone
        by_cases here : tx.hash = hash
        · rw [before.unique held (here.trans key.symm)]
          exact List.mem_cons_self
        · exact List.mem_cons_of_mem _ (all tx (holds_removeEntry.mpr ⟨before, here⟩) gone)

def resize (p : CTxMemPool) (size : BitVec 64) : CTxMemPool := { p with totalTxSize := size }

theorem removeLoop_resize (fRecursive : Bool) (rounds : Nat) (queue : List uint256) (p : CTxMemPool) (size : BitVec 64) :
    ∃ size', removeLoop fRecursive rounds queue (p.resize size) =
      ((removeLoop fRecursive rounds queue p).1.resize size', (removeLoop fRecursive rounds queue p).2) := by
  induction rounds generalizing p queue size with
  | zero => exact ⟨size, rfl⟩
  | succ rounds ih =>
    have present : (fun hash => !(p.resize size).exists_ hash) = fun hash => !p.exists_ hash := rfl
    have found (hash : uint256) : (p.resize size).mapTx.lookup hash = p.mapTx.lookup hash := rfl
    rw [removeLoop, removeLoop, present]
    cases queue.dropWhile fun hash => !p.exists_ hash with
    | nil => exact ⟨size, rfl⟩
    | cons hash rest =>
      simp only [found]
      cases p.mapTx.lookup hash with
      | none => exact ⟨size, rfl⟩
      | some entry =>
        have removed : (p.resize size).removeEntry hash entry =
            (p.removeEntry hash entry).resize (size - BitVec.ofNat 64 entry.nTxSize) := rfl
        have children : (p.resize size).children entry.tx = p.children entry.tx := rfl
        obtain ⟨size', same⟩ := ih (rest ++ if fRecursive then p.children entry.tx else []) (p.removeEntry hash entry)
          (size - BitVec.ofNat 64 entry.nTxSize)
        exact ⟨size', by simp only [removed, children, same]⟩

theorem Exact.mem_removed (exact_ : p.Exact) {tx : CTransaction}
    (same : ∀ other, p.Holds other → other.hash = tx.hash → other = tx) :
    (p.remove tx true).2.Nodup ∧
      ∀ t, p.Holds t → (t ∈ (p.remove tx true).2 ↔ p.Descends tx t) ∧ (t ∈ (p.remove tx true).2 ↔ ¬(p.remove tx true).1.Holds t) := by
  obtain ⟨inside, nodup, all⟩ := removeLoop_removed exact_ (p.Descends tx) (fun _ _ reached spends => reached.tail spends)
    p.mapTx.entries.length (p.removalQueue tx true) (by
      intro t held queued
      rcases List.mem_cons.mp queued with here | child
      · rw [same t held here]
      · split at child
        · exact .single (exact_.of_mem_children held child)
        · cases child)
  obtain ⟨takes, gone⟩ := remove_takesChildren exact_ tx
  -- Nothing that descends from the transaction stays: its parent went before it.
  have descendants : ∀ t, p.Descends tx t → ¬(p.remove tx true).1.Holds t := by
    intro t reached
    induction reached with
    | refl =>
      intro stays
      rw [stays.exists_] at gone
      cases gone
    | tail before spends ih =>
      rename_i parent child
      intro stays
      obtain ⟨_, i, within, spent⟩ := spends
      rcases Relation.ReflTransGen.cases_tail before with rfl | ⟨_, _, held⟩
      · exact remove_unspent exact_ same stays within spent
      · exact takes.children parent child i held.1 ih stays within spent
  refine ⟨nodup, fun t held => ⟨⟨fun taken => (inside t taken).1, fun reached => all t held (descendants t reached)⟩, ?_⟩⟩
  exact ⟨fun taken => descendants t (inside t taken).1, all t held⟩

theorem Exact.lookup_removed (exact_ : p.Exact) (shrinks : p.Shrinks q) {removed : List CTransaction}
    (inside : ∀ t ∈ removed, p.Holds t) (gone : ∀ t, p.Holds t → (t ∈ removed ↔ ¬q.Holds t)) :
    (∀ hash, q.mapTx.lookup hash = if hash ∈ removed.map CTransaction.hash then none else p.mapTx.lookup hash) ∧
      ∀ o, q.mapNextTx.lookup o = (p.mapNextTx.lookup o).filter fun it => decide (it.ptx ∉ removed) := by
  have after := shrinks_exact shrinks exact_
  constructor
  · intro hash
    split
    · rename_i taken
      obtain ⟨t, member, rfl⟩ := List.mem_map.mp taken
      cases left : q.mapTx.lookup t.hash with
      | none => rfl
      | some entry =>
        have stays := after.holds left
        obtain rfl := (shrinks.holds stays).unique (inside t member) (after.keyed _ _ left)
        exact absurd stays ((gone _ (inside _ member)).mp member)
    · rename_i kept
      cases before : p.mapTx.lookup hash with
      | none =>
        cases left : q.mapTx.lookup hash with
        | none => rfl
        | some entry =>
          rw [shrinks.lookup left] at before
          cases before
      | some entry =>
        have held := exact_.holds before
        have key := exact_.keyed _ _ before
        have stays : q.Holds entry.tx := by
          by_contra absent
          exact kept (List.mem_map.mpr ⟨entry.tx, (gone _ held).mpr absent, key⟩)
        obtain ⟨entry', left, _⟩ := stays
        rw [key] at left
        rw [left, ← shrinks.lookup left, before]
  · intro o
    apply Option.ext
    intro it
    rw [after.next, Option.filter_eq_some_iff, exact_.next, decide_eq_true_eq]
    constructor
    · rintro ⟨stays, spends⟩
      have held := shrinks.holds stays
      exact ⟨⟨held, spends⟩, fun taken => (gone _ held).mp taken stays⟩
    · rintro ⟨⟨held, spends⟩, kept⟩
      exact ⟨not_not.mp fun absent => kept ((gone _ held).mpr absent), spends⟩

/-- A recursive removal ends, takes out the transaction and its descendants once each, and keeps every other entry. -/
theorem remove_takes_descendants (p : CTxMemPool) (keyed : ∀ hash entry, p.mapTx.lookup hash = some entry → entry.tx.hash = hash)
    (exact_ : ∀ o it, p.mapNextTx.lookup o = some it ↔ p.Holds it.ptx ∧ SpendsAt it.ptx it.n o) (tx : CTransaction)
    (same : ∀ other, p.Holds other → other.hash = tx.hash → other = tx) :
    (∀ rounds, p.mapTx.entries.length ≤ rounds → removeLoop true rounds (p.removalQueue tx true) p = p.remove tx true) ∧
      (p.remove tx true).2.Nodup ∧ (∀ t, t ∈ (p.remove tx true).2 ↔ p.Holds t ∧ p.Descends tx t) ∧
      (∀ hash, (p.remove tx true).1.mapTx.lookup hash =
        if hash ∈ (p.remove tx true).2.map CTransaction.hash then none else p.mapTx.lookup hash) ∧
      ∀ o, (p.remove tx true).1.mapNextTx.lookup o =
        (p.mapNextTx.lookup o).filter fun it => decide (it.ptx ∉ (p.remove tx true).2) := by
  refine ⟨fun rounds enough => removeLoop_ends true _ enough le_rfl, ?_⟩
  -- The total size is set right first; the removal does not look at it.
  have sized : (p.resize (BitVec.ofNat 64 (StdMap.sum (fun _ entry => entry.nTxSize) p.mapTx))).Exact := ⟨keyed, exact_, rfl⟩
  generalize BitVec.ofNat 64 (StdMap.sum (fun _ entry => entry.nTxSize) p.mapTx) = total at sized
  obtain ⟨size, removal⟩ : ∃ size, (p.resize total).remove tx true = ((p.remove tx true).1.resize size, (p.remove tx true).2) :=
    removeLoop_resize true p.mapTx.entries.length (p.removalQueue tx true) p total
  obtain ⟨nodup, members⟩ := @Exact.mem_removed _ sized tx same
  have shrinks := remove_shrinks (p.resize total) tx true
  rw [removal] at nodup members shrinks
  have inside : ∀ t ∈ (p.remove tx true).2, p.Holds t := by
    have all := (removeLoop_removed sized (fun _ => True) (fun _ _ _ _ => trivial) p.mapTx.entries.length
      (p.removalQueue tx true) fun _ _ _ => trivial).1
    intro t member
    have taken : t ∈ ((p.resize total).remove tx true).2 := by
      rw [removal]
      exact member
    exact (all t taken).2
  refine ⟨nodup, fun t => ⟨fun taken => ⟨inside t taken, (members t (inside t taken)).1.mp taken⟩, fun reached => ?_⟩, ?_⟩
  · exact (members t reached.1).1.mpr reached.2
  · exact sized.lookup_removed shrinks inside fun t held => (members t held).2

theorem orphaned_child_removed : (orphanedPool.remove parentTx true).2 = [childTx] ∧
    ∀ t, t ∈ (orphanedPool.remove parentTx true).2 ↔ orphanedPool.Holds t ∧ orphanedPool.Descends parentTx t := by
  have parent : ({} : CTxMemPool).Addable parentTx := ⟨by decide, by decide, by decide, by decide⟩
  have child : (({} : CTxMemPool).apply (.addUnchecked ⟨parentTx, 190⟩)).Addable childTx :=
    ⟨by decide, by decide, by decide, by decide⟩
  have indexed : orphanedPool.Exact := @apply_exact _ (.remove parentTx false)
    (addUnchecked_exact ⟨childTx, 260⟩ (addUnchecked_exact ⟨parentTx, 190⟩ exact_empty parent) child) trivial
  have absent : orphanedPool.mapTx.lookup parentTx.hash = none := by decide
  refine ⟨by decide, (remove_takes_descendants orphanedPool indexed.keyed indexed.next parentTx ?_).2.2.1⟩
  intro other held here
  obtain ⟨entry, found, _⟩ := held
  rw [here, absent] at found
  cases found

end CTxMemPool

end SchillingCoin
