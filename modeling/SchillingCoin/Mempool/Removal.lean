import SchillingCoin.Mempool.Exact

/-!
What the removals of the memory pool leave behind.
-/

namespace SchillingCoin

namespace CTxMemPool

theorem lookup_removeEntry_mapTx (p : CTxMemPool) (hash h : uint256) (entry : CTxMemPoolEntry) :
    (p.removeEntry hash entry).mapTx.lookup h = if h = hash then none else p.mapTx.lookup h :=
  StdMap.lookup_erase_ite _ _ _

variable {p q : CTxMemPool} {hash : uint256} {entry : CTxMemPoolEntry} {tx : CTransaction}

theorem Shrinks.lookup (shrinks : p.Shrinks q) (found : q.mapTx.lookup hash = some entry) :
    p.mapTx.lookup hash = some entry := by
  induction shrinks with
  | refl => exact found
  | tail _ drop ih =>
    obtain ⟨h, e, _, rfl⟩ := drop
    rw [lookup_removeEntry_mapTx] at found
    split at found
    · cases found
    · exact ih found

theorem Shrinks.holds (shrinks : p.Shrinks q) (held : q.Holds tx) : p.Holds tx := by
  obtain ⟨entry, found, rfl⟩ := held
  exact ⟨entry, shrinks.lookup found, rfl⟩

theorem Shrinks.exists_false (shrinks : p.Shrinks q) (absent : p.exists_ hash = false) :
    q.exists_ hash = false := by
  rw [Bool.eq_false_iff] at absent ⊢
  intro present
  obtain ⟨entry, found⟩ := exists_iff.mp present
  exact absent (exists_iff.mpr ⟨entry, shrinks.lookup found⟩)

theorem Holds.exists_ (held : p.Holds tx) : p.exists_ tx.hash = true := by
  obtain ⟨entry, found, _⟩ := held
  exact exists_iff.mpr ⟨entry, found⟩

theorem exists_removeEntry : (p.removeEntry hash entry).exists_ h = (decide (h ≠ hash) && p.exists_ h) := by
  unfold CTxMemPool.exists_
  rw [lookup_removeEntry_mapTx]
  by_cases here : h = hash
  · simp [here]
  · simp [here]

theorem entries_removeEntry (found : p.mapTx.lookup hash = some entry) :
    (p.removeEntry hash entry).mapTx.entries.length + 1 = p.mapTx.entries.length := by
  have present : hash ∈ p.mapTx.keys := AList.mem_keys.mp (StdMap.mem_of_lookup found)
  have keys : (p.removeEntry hash entry).mapTx.keys.length = p.mapTx.keys.length - 1 := by
    rw [removeEntry, AList.keys_erase, List.length_erase_of_mem present]
  have pos : 0 < p.mapTx.keys.length := List.length_pos_of_mem present
  simp only [AList.keys, List.keys, List.length_map] at keys pos
  omega

structure TakesChildren (p q : CTxMemPool) : Prop where
  shrinks : p.Shrinks q
  children : ∀ tx child i, p.Holds tx → ¬q.Holds tx → q.Holds child → i < tx.vout.length → ⟨tx.hash, i⟩ ∉ child.prevouts

theorem TakesChildren.refl (p : CTxMemPool) : p.TakesChildren p :=
  ⟨.refl, fun _ _ _ held gone => absurd held gone⟩

theorem TakesChildren.trans (first : p.TakesChildren q) (second : q.TakesChildren r) : p.TakesChildren r := by
  refine ⟨first.shrinks.trans second.shrinks, fun tx child i held gone stays inside => ?_⟩
  by_cases between : q.Holds tx
  · exact second.children tx child i between gone stays inside
  · exact first.children tx child i held between (second.shrinks.holds stays) inside

theorem Exact.mem_children (exact_ : p.Exact) (held : p.Holds child) (inside : i < tx.vout.length)
    (spends : ⟨tx.hash, i⟩ ∈ child.prevouts) : child.hash ∈ p.children tx := by
  obtain ⟨n, at_⟩ := mem_prevouts_iff.mp spends
  exact CTxMemPool.mem_children.mpr ⟨i, inside, ⟨child, n⟩, (exact_.next _ _).mpr ⟨held, at_⟩, rfl⟩

theorem removeLoop_takesChildren (exact_ : p.Exact) (queue : List uint256) (enough : p.mapTx.entries.length ≤ rounds) :
    (∀ hash ∈ queue, (removeLoop true rounds queue p).1.exists_ hash = false) ∧
      p.TakesChildren (removeLoop true rounds queue p).1 := by
  induction rounds generalizing p queue with
  | zero =>
    have empty : p.mapTx.entries = [] := List.length_eq_zero_iff.mp (by omega)
    refine ⟨fun hash _ => ?_, TakesChildren.refl _⟩
    simp [removeLoop, CTxMemPool.exists_, AList.lookup, empty]
  | succ rounds ih =>
    have shrinks := removeLoop_shrinks true (rounds + 1) queue p
    have passed : ∀ hash ∈ queue.takeWhile fun hash => !p.exists_ hash, p.exists_ hash = false := by
      intro hash mem
      simpa using List.mem_takeWhile_imp mem
    have parts := List.takeWhile_append_dropWhile (p := fun hash => !p.exists_ hash) (l := queue)
    simp only [removeLoop] at shrinks ⊢
    cases left : queue.dropWhile fun hash => !p.exists_ hash with
    | nil =>
      rw [left, List.append_nil] at parts
      rw [parts] at passed
      exact ⟨passed, TakesChildren.refl _⟩
    | cons hash rest =>
      have present : p.exists_ hash = true := by
        have head := List.head_dropWhile_not (fun hash => !p.exists_ hash) (l := queue) (by simp [left])
        simpa [left] using head
      obtain ⟨entry, found⟩ := exists_iff.mp present
      simp only [left, found, if_true] at shrinks ⊢
      have size := entries_removeEntry found
      obtain ⟨queued, later⟩ := ih (p := p.removeEntry hash entry) (removeEntry_exact exact_ found)
        (rest ++ p.children entry.tx) (by omega)
      constructor
      · intro h mem
        rw [← parts, left, List.mem_append, List.mem_cons] at mem
        rcases mem with before | rfl | after
        · exact shrinks.exists_false (passed h before)
        · exact later.shrinks.exists_false (by simp [exists_removeEntry])
        · exact queued h (by simp [after])
      · refine ⟨shrinks, fun tx child i held gone stays inside spends => ?_⟩
        by_cases here : tx.hash = hash
        · obtain ⟨e, at_, rfl⟩ := held
          obtain rfl : entry = e := Option.some.inj (found.symm.trans (here ▸ at_))
          have listed := exact_.mem_children (shrinks.holds stays) inside spends
          have taken := queued child.hash (by simp [listed])
          rw [stays.exists_] at taken
          cases taken
        · exact later.children tx child i (holds_removeEntry.mpr ⟨held, here⟩) gone stays inside spends

theorem remove_takesChildren (exact_ : p.Exact) (tx : CTransaction) :
    p.TakesChildren (p.remove tx true).1 ∧ (p.remove tx true).1.exists_ tx.hash = false := by
  obtain ⟨queued, takes⟩ := removeLoop_takesChildren exact_ (p.removalQueue tx true) le_rfl
  exact ⟨takes, queued tx.hash (by simp [removalQueue])⟩

theorem remove_unspent (exact_ : p.Exact) (same : ∀ other, p.Holds other → other.hash = tx.hash → other = tx)
    (stays : (p.remove tx true).1.Holds child) (inside : i < tx.vout.length) : ⟨tx.hash, i⟩ ∉ child.prevouts := by
  obtain ⟨takes, gone⟩ := remove_takesChildren exact_ tx
  cases present : p.exists_ tx.hash with
  | true =>
    obtain ⟨entry, found⟩ := exists_iff.mp present
    have held := exact_.holds found
    have equal := same entry.tx held (exact_.keyed _ _ found)
    rw [equal] at held
    refine takes.children tx child i held (fun kept => ?_) stays inside
    rw [kept.exists_] at gone
    cases gone
  | false =>
    intro spends
    have listed := exact_.mem_children (takes.shrinks.holds stays) inside spends
    obtain ⟨queued, _⟩ := removeLoop_takesChildren exact_ (p.removalQueue tx true) le_rfl
    have taken := queued child.hash (by simp [removalQueue, present, listed])
    have kept := stays.exists_
    rw [remove, taken] at kept
    cases kept

theorem removeAll_takesChildren (exact_ : p.Exact) (txs : List CTransaction) :
    p.TakesChildren (p.removeAll txs) ∧ ∀ tx ∈ txs, (p.removeAll txs).exists_ tx.hash = false := by
  induction txs generalizing p with
  | nil => exact ⟨TakesChildren.refl p, by simp⟩
  | cons tx txs ih =>
    obtain ⟨first, gone⟩ := remove_takesChildren exact_ tx
    obtain ⟨rest, others⟩ := ih (shrinks_exact first.shrinks exact_)
    refine ⟨first.trans rest, fun t mem => ?_⟩
    rcases List.mem_cons.mp mem with rfl | mem
    · exact rest.shrinks.exists_false gone
    · exact others t mem

theorem holds_remove_single (tx : CTransaction) : (p.remove tx false).1.Holds other ↔ p.Holds other ∧ other.hash ≠ tx.hash := by
  have queue : p.removalQueue tx false = [tx.hash] := by simp [removalQueue]
  rw [remove, queue]
  cases size : p.mapTx.entries.length with
  | zero =>
    have empty : p.mapTx.entries = [] := List.length_eq_zero_iff.mp size
    simp [removeLoop, Holds, AList.lookup, empty]
  | succ rounds =>
    simp only [removeLoop]
    cases present : p.exists_ tx.hash with
    | false =>
      simp only [List.dropWhile_cons, present, Bool.not_false, if_true, List.dropWhile_nil]
      refine ⟨fun held => ⟨held, fun here => ?_⟩, And.left⟩
      have kept := held.exists_
      rw [here, present] at kept
      cases kept
    | true =>
      obtain ⟨entry, found⟩ := exists_iff.mp present
      have emptied : removeLoop false rounds [] (p.removeEntry tx.hash entry) = (p.removeEntry tx.hash entry, []) := by
        cases rounds <;> simp [removeLoop]
      simp only [List.dropWhile_cons, present, Bool.not_true, Bool.false_eq_true, if_false, found, List.append_nil, emptied]
      exact holds_removeEntry

theorem removeConflicts_takesChildren (exact_ : p.Exact) (tx : CTransaction) :
    p.TakesChildren (p.removeConflicts tx).1 ∧
      ∀ other, (p.removeConflicts tx).1.Holds other → other.hash ≠ tx.hash → ∀ o ∈ tx.prevouts, o ∉ other.prevouts := by
  have step : ∀ (r : CTxMemPool × List CTransaction) (txin : CTxIn), r.1.Exact → r.1.TakesChildren (removeConflict tx r txin).1 ∧
      ∀ other, (removeConflict tx r txin).1.Holds other → other.hash ≠ tx.hash → txin.prevout ∉ other.prevouts := by
    intro r txin exact_
    have recorded : ∀ other, r.1.Holds other → txin.prevout ∈ other.prevouts →
        ∃ n, r.1.mapNextTx.lookup txin.prevout = some ⟨other, n⟩ := by
      intro other held spends
      obtain ⟨n, at_⟩ := mem_prevouts_iff.mp spends
      exact ⟨n, (exact_.next _ ⟨other, n⟩).mpr ⟨held, at_⟩⟩
    unfold removeConflict
    cases found : r.1.mapNextTx.lookup txin.prevout with
    | none =>
      refine ⟨TakesChildren.refl _, fun other held _ spends => ?_⟩
      obtain ⟨n, at_⟩ := recorded other held spends
      rw [found] at at_
      cases at_
    | some it =>
      simp only
      split
      · obtain ⟨takes, gone⟩ := remove_takesChildren exact_ it.ptx
        refine ⟨takes, fun other held _ spends => ?_⟩
        obtain ⟨n, at_⟩ := recorded other (takes.shrinks.holds held) spends
        obtain rfl := Option.some.inj (found.symm.trans at_)
        have kept := held.exists_
        rw [gone] at kept
        cases kept
      · rename_i own
        refine ⟨TakesChildren.refl _, fun other held different spends => ?_⟩
        obtain ⟨n, at_⟩ := recorded other held spends
        obtain rfl := Option.some.inj (found.symm.trans at_)
        exact own different
  have loop : ∀ (vin : List CTxIn) (r : CTxMemPool × List CTransaction), r.1.Exact →
      r.1.TakesChildren (vin.foldl (removeConflict tx) r).1 ∧
        ∀ other, (vin.foldl (removeConflict tx) r).1.Holds other → other.hash ≠ tx.hash →
          ∀ i ∈ vin, i.prevout ∉ other.prevouts := by
    intro vin
    induction vin with
    | nil => exact fun r _ => ⟨TakesChildren.refl _, by simp⟩
    | cons txin vin ih =>
      intro r exact_
      obtain ⟨first, here⟩ := step r txin exact_
      obtain ⟨rest, later⟩ := ih (removeConflict tx r txin) (shrinks_exact first.shrinks exact_)
      refine ⟨first.trans rest, fun other held different i mem => ?_⟩
      rcases List.mem_cons.mp mem with rfl | mem
      · exact here other (rest.shrinks.holds held) different
      · exact later other held different i mem
  obtain ⟨takes, apart⟩ := loop tx.vin (p, []) exact_
  refine ⟨takes, fun other held different o mem => ?_⟩
  obtain ⟨i, input, rfl⟩ := List.mem_map.mp mem
  exact apart other held different i input

end CTxMemPool

end SchillingCoin
