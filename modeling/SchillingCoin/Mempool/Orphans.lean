import Mathlib.Data.List.Sort
import SchillingCoin.Mempool.Accept
import SchillingCoin.Net.BlocksInFlight
import SchillingCoin.Primitives.Wire

/-!
Transactions that wait for their parents, after `mapOrphanTransactions` and the handler of `tx` messages in `main.cpp`. A `std::set` is the
list of its members in ascending order.
-/

namespace SchillingCoin

structure COrphanTx where
  tx : CTransaction
  fromPeer : NodeId
  deriving DecidableEq, Repr

structure OrphanPool where
  mapOrphanTransactions : StdMap uint256 COrphanTx := ∅
  mapOrphanTransactionsByPrev : StdMap uint256 (List uint256) := ∅

/-- What `AcceptToMemoryPool` reports: `nDoS` is that of the state when it is invalid. -/
structure AcceptVerdict where
  accepted : Bool
  fMissingInputs : Bool
  nDoS : Nat
  deriving DecidableEq, Repr

namespace OrphanPool

variable (pool : OrphanPool) (hash : uint256) (peer : NodeId)

def size : Nat := pool.mapOrphanTransactions.keys.length

def insertHash (hashes : List uint256) (hash : uint256) : List uint256 :=
  if hash ∈ hashes then hashes else hashes.orderedInsert (· ≤ ·) hash

def addByPrev (byPrev : StdMap uint256 (List uint256)) (txin : CTxIn) : StdMap uint256 (List uint256) :=
  byPrev.insert txin.prevout.hash (insertHash ((byPrev.lookup txin.prevout.hash).getD []) hash)

def addOrphanTx (tx : CTransaction) (peer : NodeId) : Bool × OrphanPool :=
  let hash := tx.getHash
  if (pool.mapOrphanTransactions.lookup hash).isSome then (false, pool)
  else if (Wire.serializeTransaction tx).size > 5000 then (false, pool)
  else (true, { mapOrphanTransactions := pool.mapOrphanTransactions.insert hash { tx, fromPeer := peer }
                mapOrphanTransactionsByPrev := tx.vin.foldl (addByPrev hash) pool.mapOrphanTransactionsByPrev })

def eraseByPrev (byPrev : StdMap uint256 (List uint256)) (txin : CTxIn) : StdMap uint256 (List uint256) :=
  match byPrev.lookup txin.prevout.hash with
  | none => byPrev
  | some hashes =>
    let left := hashes.filter (· ≠ hash)
    if left.isEmpty then byPrev.erase txin.prevout.hash else byPrev.insert txin.prevout.hash left

def eraseOrphanTx : OrphanPool :=
  match pool.mapOrphanTransactions.lookup hash with
  | none => pool
  | some orphan => { mapOrphanTransactions := pool.mapOrphanTransactions.erase hash
                     mapOrphanTransactionsByPrev := orphan.tx.vin.foldl (eraseByPrev hash) pool.mapOrphanTransactionsByPrev }

def hashes : List uint256 := pool.mapOrphanTransactions.keys.insertionSort (· ≤ ·)

def eraseOrphanFor (pool : OrphanPool) (hash : uint256) : OrphanPool :=
  match pool.mapOrphanTransactions.lookup hash with
  | none => pool
  | some orphan => if orphan.fromPeer = peer then pool.eraseOrphanTx orphan.tx.getHash else pool

def eraseOrphansFor : OrphanPool := pool.hashes.foldl (eraseOrphanFor peer) pool

/-- `lower_bound` of a random hash, and `begin` when nothing is as high. -/
def evicted (randomhash : uint256) : Option uint256 :=
  (pool.hashes.find? fun hash => decide (randomhash ≤ hash)).or pool.hashes.head?

theorem mem_of_evicted {pool : OrphanPool} {hash : uint256} (chosen : pool.evicted randomhash = some hash) :
    hash ∈ pool.mapOrphanTransactions.keys := by
  have listed : hash ∈ pool.hashes := by
    unfold evicted at chosen
    cases found : pool.hashes.find? fun hash => decide (randomhash ≤ hash) with
    | none =>
      rw [found, Option.none_or] at chosen
      exact List.mem_of_head? chosen
    | some hash' =>
      rw [found, Option.some_or] at chosen
      obtain rfl := Option.some.inj chosen
      exact List.mem_of_find?_eq_some found
  exact List.mem_insertionSort _ |>.mp listed

theorem size_eraseOrphanTx {pool : OrphanPool} {hash : uint256} (known : hash ∈ pool.mapOrphanTransactions.keys) :
    (pool.eraseOrphanTx hash).size + 1 = pool.size := by
  obtain ⟨orphan, found⟩ := Option.isSome_iff_exists.mp (AList.lookup_isSome.mpr (AList.mem_keys.mpr known))
  have positive := List.length_pos_of_mem known
  rw [eraseOrphanTx, found, size, size, AList.keys_erase, List.length_erase_of_mem known]
  omega

/-- The hashes drawn are arguments; the draw of a round has the number of the orphans evicted before. -/
def limitOrphanTxSize (nMaxOrphans : Nat) (draw : Nat → uint256) (pool : OrphanPool) (nEvicted : Nat) : Nat × OrphanPool :=
  if pool.size > nMaxOrphans then
    match chosen : pool.evicted (draw nEvicted) with
    | none => (nEvicted, pool)
    | some hash => limitOrphanTxSize nMaxOrphans draw (pool.eraseOrphanTx hash) (nEvicted + 1)
  else (nEvicted, pool)
termination_by pool.size
decreasing_by
  have less := size_eraseOrphanTx (mem_of_evicted chosen)
  omega

def subscript : COrphanTx × OrphanPool :=
  match pool.mapOrphanTransactions.lookup hash with
  | some orphan => (orphan, pool)
  | none =>
    let created : COrphanTx := { tx := { hash := 0, vin := [], vout := [] }, fromPeer := 0 }
    (created, { pool with mapOrphanTransactions := pool.mapOrphanTransactions.insert hash created })

end OrphanPool

section Handler

universe u

variable {S : Type u} (accept : S → CTransaction → AcceptVerdict × S)

structure OrphanState (S : Type u) where
  pool : OrphanPool := {}
  mempool : S

/-- The loop over the orphans whose parents have come. `vWorkQueue` is what is left of it. -/
structure ResolveState (S : Type u) extends OrphanState S where
  vWorkQueue : List uint256
  vEraseQueue : List uint256 := []
  setMisbehaving : List NodeId := []

def resolveOrphan (st : ResolveState S) (orphanHash : uint256) : ResolveState S :=
  let found := st.pool.subscript orphanHash
  let st := { st with pool := found.2 }
  if found.1.fromPeer ∈ st.setMisbehaving then st
  else
    let tried := accept st.mempool found.1.tx
    let st := { st with mempool := tried.2 }
    if tried.1.accepted then { st with vWorkQueue := st.vWorkQueue ++ [orphanHash], vEraseQueue := st.vEraseQueue ++ [orphanHash] }
    else if !tried.1.fMissingInputs then
      { st with
        setMisbehaving := if tried.1.nDoS > 0 then found.1.fromPeer :: st.setMisbehaving else st.setMisbehaving
        vEraseQueue := st.vEraseQueue ++ [orphanHash] }
    else st

/-- A round for each entry of the queue; `none` when there are more. -/
def resolveLoop : (rounds : Nat) → ResolveState S → Option (ResolveState S)
  | 0, st => if st.vWorkQueue.isEmpty then some st else none
  | rounds + 1, st =>
    match st.vWorkQueue with
    | [] => some st
    | hash :: rest =>
      let st := { st with vWorkQueue := rest }
      match st.pool.mapOrphanTransactionsByPrev.lookup hash with
      | none => resolveLoop rounds st
      | some orphans => resolveLoop rounds (orphans.foldl (resolveOrphan accept) st)

def resolveOrphans (rounds : Nat) (st : OrphanState S) (hash : uint256) : Option (OrphanState S) :=
  (resolveLoop accept rounds { st with vWorkQueue := [hash] }).map fun st =>
    { pool := st.vEraseQueue.foldl OrphanPool.eraseOrphanTx st.pool, mempool := st.mempool }

def processTx (rounds nMaxOrphanTx : Nat) (draw : Nat → uint256) (st : OrphanState S) (tx : CTransaction) (peer : NodeId) :
    Option (OrphanState S) :=
  if tx.hasZerocoinSpendInputs then some st
  else
    let tried := accept st.mempool tx
    let st := { st with mempool := tried.2 }
    if tried.1.accepted then resolveOrphans accept rounds st tx.getHash
    else if tried.1.fMissingInputs then
      some { st with pool := (OrphanPool.limitOrphanTxSize nMaxOrphanTx draw (st.pool.addOrphanTx tx peer).2 0).2 }
    else some st

inductive OrphanOp where
  | add (tx : CTransaction) (peer : NodeId)
  | erase (hash : uint256)
  | eraseFor (peer : NodeId)
  | limit (nMaxOrphans : Nat) (draw : Nat → uint256)
  | resolve (rounds : Nat) (hash : uint256)
  | tx (rounds nMaxOrphanTx : Nat) (draw : Nat → uint256) (tx : CTransaction) (peer : NodeId)
  /-- `UnloadBlockIndex`. -/
  | clear

variable (st : OrphanState S)

def OrphanState.step : OrphanOp → Option (OrphanState S)
  | .add tx peer => some { st with pool := (st.pool.addOrphanTx tx peer).2 }
  | .erase hash => some { st with pool := st.pool.eraseOrphanTx hash }
  | .eraseFor peer => some { st with pool := st.pool.eraseOrphansFor peer }
  | .limit nMaxOrphans draw => some { st with pool := (OrphanPool.limitOrphanTxSize nMaxOrphans draw st.pool 0).2 }
  | .resolve rounds hash => resolveOrphans accept rounds st hash
  | .tx rounds nMaxOrphanTx draw tx peer => processTx accept rounds nMaxOrphanTx draw st tx peer
  | .clear => some { st with pool := {} }

end Handler

namespace OrphanPool

variable (byPrev : StdMap uint256 (List uint256))

/-- The orphans that are filed under a parent. -/
def filed (p : uint256) : List uint256 := (byPrev.lookup p).getD []

def Spends (tx : CTransaction) (p : uint256) : Prop := ∃ txin ∈ tx.vin, txin.prevout.hash = p

def NoneEmpty : Prop := ∀ p, byPrev.lookup p ≠ some []

structure Exact (pool : OrphanPool) : Prop where
  keyed : ∀ t orphan, pool.mapOrphanTransactions.lookup t = some orphan → orphan.tx.hash = t
  index : ∀ p t, t ∈ filed pool.mapOrphanTransactionsByPrev p ↔
    ∃ orphan, pool.mapOrphanTransactions.lookup t = some orphan ∧ Spends orphan.tx p
  noneEmpty : NoneEmpty pool.mapOrphanTransactionsByPrev

theorem mem_insertHash {hashes : List uint256} {hash : uint256} : t ∈ insertHash hashes hash ↔ t = hash ∨ t ∈ hashes := by
  unfold insertHash
  split
  · next there =>
    constructor
    · exact Or.inr
    · intro either
      rcases either with rfl | old
      · exact there
      · exact old
  · rw [List.mem_orderedInsert]

theorem addByPrev_spec (hash : uint256) (vin : List CTxIn) (byPrev : StdMap uint256 (List uint256)) (noneEmpty : NoneEmpty byPrev) :
    NoneEmpty (vin.foldl (addByPrev hash) byPrev) ∧
      ∀ p t, t ∈ filed (vin.foldl (addByPrev hash) byPrev) p ↔ t ∈ filed byPrev p ∨ t = hash ∧ ∃ txin ∈ vin, txin.prevout.hash = p := by
  induction vin generalizing byPrev with
  | nil => exact ⟨noneEmpty, fun p t => by simp⟩
  | cons txin vin ih =>
    have step : ∀ p, filed (addByPrev hash byPrev txin) p =
        if p = txin.prevout.hash then insertHash (filed byPrev p) hash else filed byPrev p := by
      intro p
      unfold addByPrev filed
      rw [StdMap.lookup_insert_ite]
      by_cases here : p = txin.prevout.hash
      · rw [if_pos here, if_pos here, Option.getD_some, here]
      · rw [if_neg here, if_neg here]
    have filled : NoneEmpty (addByPrev hash byPrev txin) := by
      intro p empty
      unfold addByPrev at empty
      rw [StdMap.lookup_insert_ite] at empty
      split at empty
      · have member : hash ∈ insertHash ((byPrev.lookup txin.prevout.hash).getD []) hash := mem_insertHash.mpr (Or.inl rfl)
        rw [Option.some.inj empty] at member
        nomatch member
      · exact noneEmpty p empty
    obtain ⟨noneEmpty', rest⟩ := ih _ filled
    refine ⟨noneEmpty', fun p t => ?_⟩
    rw [List.foldl_cons, rest, step]
    by_cases here : p = txin.prevout.hash
    · rw [if_pos here, mem_insertHash]
      constructor
      · intro either
        rcases either with (new | old) | ⟨new, later⟩
        · exact Or.inr ⟨new, txin, List.mem_cons_self, here.symm⟩
        · exact Or.inl old
        · exact Or.inr ⟨new, txin, List.mem_cons_self, here.symm⟩
      · intro either
        rcases either with old | ⟨new, _⟩
        · exact Or.inl (Or.inr old)
        · exact Or.inl (Or.inl new)
    · have other : ¬txin.prevout.hash = p := Ne.symm here
      rw [if_neg here, List.exists_mem_cons_iff, or_iff_right other]

theorem eraseByPrev_spec (hash : uint256) (vin : List CTxIn) (byPrev : StdMap uint256 (List uint256)) (noneEmpty : NoneEmpty byPrev) :
    NoneEmpty (vin.foldl (eraseByPrev hash) byPrev) ∧
      ∀ p t, t ∈ filed (vin.foldl (eraseByPrev hash) byPrev) p ↔ t ∈ filed byPrev p ∧ ¬(t = hash ∧ ∃ txin ∈ vin, txin.prevout.hash = p) := by
  induction vin generalizing byPrev with
  | nil => exact ⟨noneEmpty, fun p t => by simp⟩
  | cons txin vin ih =>
    have step : NoneEmpty (eraseByPrev hash byPrev txin) ∧ ∀ p, filed (eraseByPrev hash byPrev txin) p =
        if p = txin.prevout.hash then (filed byPrev p).filter (· ≠ hash) else filed byPrev p := by
      unfold eraseByPrev
      cases found : byPrev.lookup txin.prevout.hash with
      | none =>
        refine ⟨noneEmpty, fun p => ?_⟩
        dsimp only
        split
        · next here =>
          rw [filed, here, found]
          rfl
        · rfl
      | some hashes =>
        dsimp only
        split
        · next empty =>
          constructor
          · intro p none_
            rw [StdMap.lookup_erase_ite] at none_
            split at none_
            · cases none_
            · exact noneEmpty p none_
          · intro p
            unfold filed
            rw [StdMap.lookup_erase_ite]
            split
            · next here =>
              rw [here, found, Option.getD_some, List.isEmpty_iff.mp empty]
              rfl
            · rfl
        · next left =>
          constructor
          · intro p none_
            rw [StdMap.lookup_insert_ite] at none_
            split at none_
            · rw [Option.some.inj none_] at left
              exact left rfl
            · exact noneEmpty p none_
          · intro p
            unfold filed
            rw [StdMap.lookup_insert_ite]
            split
            · next here => rw [here, found, Option.getD_some, Option.getD_some]
            · rfl
    obtain ⟨noneEmpty', rest⟩ := ih _ step.1
    refine ⟨noneEmpty', fun p t => ?_⟩
    rw [List.foldl_cons, rest, step.2]
    by_cases here : p = txin.prevout.hash
    · rw [if_pos here, List.mem_filter, decide_eq_true_iff]
      constructor
      · intro both
        exact ⟨both.1.1, fun same => both.1.2 same.1⟩
      · intro both
        have different : t ≠ hash := fun same => both.2 ⟨same, txin, List.mem_cons_self, here.symm⟩
        exact ⟨⟨both.1, different⟩, fun same => different same.1⟩
    · have other : ¬txin.prevout.hash = p := Ne.symm here
      rw [if_neg here, List.exists_mem_cons_iff, or_iff_right other]

variable {pool : OrphanPool}

theorem exact_empty : Exact {} := ⟨fun _ _ => nofun, fun p t => by simp [filed], fun p => by simp⟩

theorem Exact.addOrphanTx (exact_ : pool.Exact) (tx : CTransaction) (peer : NodeId) : (pool.addOrphanTx tx peer).2.Exact := by
  unfold OrphanPool.addOrphanTx
  dsimp only
  by_cases known : (pool.mapOrphanTransactions.lookup tx.getHash).isSome = true
  · rw [if_pos known]
    exact exact_
  rw [if_neg known]
  by_cases large : (Wire.serializeTransaction tx).size > 5000
  · rw [if_pos large]
    exact exact_
  rw [if_neg large]
  obtain ⟨noneEmpty, filed_⟩ := addByPrev_spec tx.getHash tx.vin pool.mapOrphanTransactionsByPrev exact_.noneEmpty
  refine ⟨fun t orphan found => ?_, fun p t => ?_, noneEmpty⟩
  · rw [StdMap.lookup_insert_ite] at found
    split at found
    · next here =>
      obtain rfl := Option.some.inj found
      exact here.symm
    · exact exact_.keyed t orphan found
  · rw [filed_, exact_.index, StdMap.lookup_insert_ite]
    by_cases here : t = tx.getHash
    · -- it was not held before
      have fresh : pool.mapOrphanTransactions.lookup t = none := by
        rw [here]
        exact Option.not_isSome_iff_eq_none.mp known
      rw [if_pos here, fresh]
      simp [here, Spends]
    · rw [if_neg here]
      simp [here]

theorem Exact.eraseOrphanTx (exact_ : pool.Exact) (hash : uint256) : (pool.eraseOrphanTx hash).Exact := by
  unfold OrphanPool.eraseOrphanTx
  cases found : pool.mapOrphanTransactions.lookup hash with
  | none => exact exact_
  | some orphan =>
    obtain ⟨noneEmpty, filed_⟩ := eraseByPrev_spec hash orphan.tx.vin pool.mapOrphanTransactionsByPrev exact_.noneEmpty
    refine ⟨fun t orphan' found' => ?_, fun p t => ?_, noneEmpty⟩
    · rw [StdMap.lookup_erase_ite] at found'
      split at found'
      · cases found'
      · exact exact_.keyed t orphan' found'
    · rw [filed_, exact_.index, StdMap.lookup_erase_ite]
      by_cases here : t = hash
      · rw [if_pos here, here, found]
        simp [Spends]
      · rw [if_neg here]
        simp [here]

theorem Exact.eraseOrphanFor (exact_ : pool.Exact) (peer : NodeId) (hash : uint256) : (eraseOrphanFor peer pool hash).Exact := by
  unfold OrphanPool.eraseOrphanFor
  split
  · exact exact_
  · split
    · exact exact_.eraseOrphanTx _
    · exact exact_

theorem Exact.foldl (kept : ∀ pool hash, Exact pool → Exact (step pool hash)) (exact_ : pool.Exact) (hashes : List uint256) :
    (hashes.foldl step pool).Exact := by
  induction hashes generalizing pool with
  | nil => exact exact_
  | cons hash hashes ih => exact ih (kept pool hash exact_)

theorem Exact.eraseOrphansFor (exact_ : pool.Exact) (peer : NodeId) : (pool.eraseOrphansFor peer).Exact :=
  exact_.foldl (fun _ hash exact_ => exact_.eraseOrphanFor peer hash) _

theorem evicted_of_full (some_ : 0 < pool.size) (randomhash : uint256) : ∃ hash, pool.evicted randomhash = some hash := by
  have listed : pool.hashes ≠ [] := by
    intro empty
    have same := List.length_insertionSort (· ≤ ·) pool.mapOrphanTransactions.keys
    unfold size at some_
    rw [show pool.mapOrphanTransactions.keys.insertionSort (· ≤ ·) = [] from empty, List.length_nil] at same
    omega
  unfold evicted
  cases found : pool.hashes.find? fun hash => decide (randomhash ≤ hash) with
  | some hash => exact ⟨hash, rfl⟩
  | none => exact ⟨_, List.head?_eq_some_head listed⟩

theorem limitOrphanTxSize_spec (nMaxOrphans : Nat) (draw : Nat → uint256) (exact_ : pool.Exact) (nEvicted : Nat) :
    (limitOrphanTxSize nMaxOrphans draw pool nEvicted).2.Exact ∧
      (limitOrphanTxSize nMaxOrphans draw pool nEvicted).2.size = min pool.size nMaxOrphans := by
  induction count : pool.size generalizing pool nEvicted with
  | zero =>
    unfold limitOrphanTxSize
    rw [if_neg (by omega)]
    exact ⟨exact_, by rw [count, Nat.zero_min]⟩
  | succ n ih =>
    unfold limitOrphanTxSize
    by_cases full : pool.size > nMaxOrphans
    · obtain ⟨hash, chosen⟩ := @evicted_of_full pool (by omega) (draw nEvicted)
      have less := size_eraseOrphanTx (mem_of_evicted chosen)
      rw [if_pos full]
      split
      · next none_ =>
        rw [chosen] at none_
        cases none_
      · next hash' chosen' =>
        rw [chosen] at chosen'
        obtain rfl := Option.some.inj chosen'
        obtain ⟨exact', size⟩ := ih (exact_.eraseOrphanTx hash) (nEvicted + 1) (by omega)
        exact ⟨exact', by omega⟩
    · rw [if_neg full]
      exact ⟨exact_, by rw [count]; omega⟩

end OrphanPool

section Resolution

universe u

variable {S : Type u} {accept : S → CTransaction → AcceptVerdict × S}

structure KnowsPool (accept : S → CTransaction → AcceptVerdict × S) (inPool : S → uint256 → Prop) : Prop where
  fresh : ∀ s tx, (accept s tx).1.accepted = true → ¬inPool s tx.hash
  added : ∀ s tx, (accept s tx).1.accepted = true → inPool (accept s tx).2 tx.hash
  kept : ∀ s tx hash, inPool s hash → inPool (accept s tx).2 hash

theorem subscript_known {pool : OrphanPool} {hash : uint256} (found : pool.mapOrphanTransactions.lookup hash = some orphan) :
    pool.subscript hash = (orphan, pool) := by
  rw [OrphanPool.subscript, found]

theorem resolveOrphan_cases {st : ResolveState S} {hash : uint256} {orphan : COrphanTx}
    (found : st.pool.mapOrphanTransactions.lookup hash = some orphan) :
    (resolveOrphan accept st hash).pool = st.pool ∧
      ((resolveOrphan accept st hash).mempool = st.mempool ∧ (resolveOrphan accept st hash).vWorkQueue = st.vWorkQueue ∨
        (resolveOrphan accept st hash).mempool = (accept st.mempool orphan.tx).2 ∧
          (resolveOrphan accept st hash).vWorkQueue =
            st.vWorkQueue ++ if (accept st.mempool orphan.tx).1.accepted then [hash] else []) := by
  unfold resolveOrphan
  rw [subscript_known found]
  dsimp only
  by_cases punished : orphan.fromPeer ∈ st.setMisbehaving
  · rw [if_pos punished]
    exact ⟨rfl, Or.inl ⟨rfl, rfl⟩⟩
  · rw [if_neg punished]
    cases (accept st.mempool orphan.tx).1.accepted with
    | true => exact ⟨rfl, Or.inr ⟨rfl, rfl⟩⟩
    | false =>
      have unchanged : st.vWorkQueue = st.vWorkQueue ++ if false = true then [hash] else [] := (List.append_nil _).symm
      rw [if_neg Bool.false_ne_true]
      split
      · exact ⟨rfl, Or.inr ⟨rfl, unchanged⟩⟩
      · exact ⟨rfl, Or.inr ⟨rfl, unchanged⟩⟩

open Classical in
noncomputable def waiting (inPool : S → uint256 → Prop) (pool : OrphanPool) (s : S) : Nat :=
  (pool.mapOrphanTransactions.keys.toFinset.filter fun hash => ¬inPool s hash).card

variable {inPool : S → uint256 → Prop} {pool : OrphanPool}

open Classical in
theorem waiting_le (s : S) : waiting inPool pool s ≤ pool.size := by
  unfold waiting
  exact Nat.le_trans (Finset.card_filter_le _ _) (List.toFinset_card_le _)

theorem waiting_accept (knows : KnowsPool accept inPool) (s : S) (tx : CTransaction) :
    waiting inPool pool (accept s tx).2 ≤ waiting inPool pool s ∧
      ((accept s tx).1.accepted = true → tx.hash ∈ pool.mapOrphanTransactions.keys →
        waiting inPool pool (accept s tx).2 < waiting inPool pool s) := by
  classical
  have less : (pool.mapOrphanTransactions.keys.toFinset.filter fun hash => ¬inPool (accept s tx).2 hash) ⊆
      pool.mapOrphanTransactions.keys.toFinset.filter fun hash => ¬inPool s hash := by
    intro hash member
    rw [Finset.mem_filter] at member ⊢
    exact ⟨member.1, fun there => member.2 (knows.kept s tx hash there)⟩
  unfold waiting
  refine ⟨Finset.card_le_card (by convert less), fun accepted known => Finset.card_lt_card ?_⟩
  rw [Finset.ssubset_iff_of_subset (by convert less)]
  refine ⟨tx.hash, ?_, ?_⟩
  · rw [Finset.mem_filter, List.mem_toFinset]
    exact ⟨known, knows.fresh s tx accepted⟩
  · rw [Finset.mem_filter, not_and, not_not]
    exact fun _ => knows.added s tx accepted

theorem resolveOrphan_bound (knows : KnowsPool accept inPool) {st : ResolveState S} (exact_ : st.pool.Exact) {hash : uint256}
    (known : (st.pool.mapOrphanTransactions.lookup hash).isSome) :
    (resolveOrphan accept st hash).vWorkQueue.length + waiting inPool st.pool (resolveOrphan accept st hash).mempool ≤
      st.vWorkQueue.length + waiting inPool st.pool st.mempool := by
  obtain ⟨orphan, found⟩ := Option.isSome_iff_exists.mp known
  obtain ⟨_, untried | tried⟩ := @resolveOrphan_cases S accept st hash orphan found
  · rw [untried.1, untried.2]
  · have held : orphan.tx.hash ∈ st.pool.mapOrphanTransactions.keys := by
      rw [exact_.keyed hash orphan found]
      exact AList.mem_keys.mp (StdMap.mem_of_lookup found)
    obtain ⟨same, less⟩ := @waiting_accept S accept inPool st.pool knows st.mempool orphan.tx
    rw [tried.1, tried.2, List.length_append]
    split
    · next accepted =>
      have fewer := less accepted held
      rw [List.length_singleton]
      omega
    · rw [List.length_nil]
      omega

theorem resolveOrphans_fold {st : ResolveState S} {orphans : List uint256}
    (known : ∀ hash ∈ orphans, (st.pool.mapOrphanTransactions.lookup hash).isSome) :
    (orphans.foldl (resolveOrphan accept) st).pool = st.pool ∧ (KnowsPool accept inPool → st.pool.Exact →
      (orphans.foldl (resolveOrphan accept) st).vWorkQueue.length +
        waiting inPool st.pool (orphans.foldl (resolveOrphan accept) st).mempool ≤
          st.vWorkQueue.length + waiting inPool st.pool st.mempool) := by
  induction orphans generalizing st with
  | nil => exact ⟨rfl, fun _ _ => Nat.le_refl _⟩
  | cons hash orphans ih =>
    have here := known hash List.mem_cons_self
    obtain ⟨orphan, found⟩ := Option.isSome_iff_exists.mp here
    have pool := (@resolveOrphan_cases S accept st hash orphan found).1
    obtain ⟨pool', bound⟩ := @ih (resolveOrphan accept st hash) fun hash' member => by
      rw [pool]
      exact known hash' (List.mem_cons_of_mem _ member)
    refine ⟨pool'.trans pool, fun knows exact_ => ?_⟩
    have first := resolveOrphan_bound knows exact_ here
    have rest := bound knows (pool ▸ exact_)
    rw [pool] at rest
    exact Nat.le_trans rest first

theorem resolveLoop_spec {st : ResolveState S} (exact_ : st.pool.Exact) :
    (∀ st', resolveLoop accept rounds st = some st' → st'.pool = st.pool) ∧
      (KnowsPool accept inPool → st.vWorkQueue.length + waiting inPool st.pool st.mempool ≤ rounds →
        ∃ st', resolveLoop accept rounds st = some st') := by
  induction rounds generalizing st with
  | zero =>
    unfold resolveLoop
    cases queue : st.vWorkQueue with
    | nil =>
      rw [if_pos List.isEmpty_nil]
      exact ⟨fun st' ended => Option.some.inj ended ▸ rfl, fun _ _ => ⟨st, rfl⟩⟩
    | cons hash rest =>
      rw [if_neg nofun, List.length_cons]
      exact ⟨fun st' => nofun, fun _ enough => by omega⟩
  | succ rounds ih =>
    unfold resolveLoop
    cases queue : st.vWorkQueue with
    | nil => exact ⟨fun st' ended => Option.some.inj ended ▸ rfl, fun _ _ => ⟨st, rfl⟩⟩
    | cons hash rest =>
      dsimp only
      cases found : st.pool.mapOrphanTransactionsByPrev.lookup hash with
      | none =>
        obtain ⟨pool, ends⟩ := @ih { st with vWorkQueue := rest } exact_
        refine ⟨pool, fun knows enough => ends knows ?_⟩
        rw [List.length_cons] at enough
        dsimp only
        omega
      | some orphans =>
        have known : ∀ hash' ∈ orphans, (st.pool.mapOrphanTransactions.lookup hash').isSome := by
          intro hash' member
          have filed_ : hash' ∈ OrphanPool.filed st.pool.mapOrphanTransactionsByPrev hash := by
            rw [OrphanPool.filed, found]
            exact member
          obtain ⟨orphan, there, _⟩ := (exact_.index hash hash').mp filed_
          rw [there]
          rfl
        obtain ⟨same, bound⟩ := @resolveOrphans_fold S accept inPool { st with vWorkQueue := rest } orphans known
        obtain ⟨pool, ends⟩ := @ih (orphans.foldl (resolveOrphan accept) { st with vWorkQueue := rest }) (by rw [same]; exact exact_)
        refine ⟨fun st' ended => (pool st' ended).trans same, fun knows enough => ends knows ?_⟩
        have less := bound knows exact_
        rw [List.length_cons] at enough
        rw [same]
        dsimp only at less ⊢
        omega

theorem resolveOrphans_spec (exact_ : st.pool.Exact) (hash : uint256) :
    (∀ st', resolveOrphans accept rounds st hash = some st' → st'.pool.Exact) ∧
      (KnowsPool accept inPool → st.pool.size < rounds → ∃ st', resolveOrphans accept rounds st hash = some st') := by
  obtain ⟨pool, ends⟩ := @resolveLoop_spec S accept inPool rounds { st with vWorkQueue := [hash] } exact_
  constructor
  · intro st' ended
    obtain ⟨after, looped, rfl⟩ := Option.map_eq_some_iff.mp ended
    have same := pool after looped
    apply OrphanPool.Exact.foldl (fun _ hash exact_ => exact_.eraseOrphanTx hash)
    rw [same]
    exact exact_
  · intro knows enough
    have few := @waiting_le S inPool st.pool st.mempool
    obtain ⟨after, ended⟩ := ends knows (by rw [List.length_singleton]; dsimp only; omega)
    exact ⟨_, by rw [resolveOrphans, ended, Option.map_some]⟩

theorem step_exact {st : OrphanState S} (exact_ : st.pool.Exact) (done : st.step accept op = some st') : st'.pool.Exact := by
  cases op with
  | add tx peer =>
    obtain rfl := Option.some.inj done
    exact exact_.addOrphanTx tx peer
  | erase hash =>
    obtain rfl := Option.some.inj done
    exact exact_.eraseOrphanTx hash
  | eraseFor peer =>
    obtain rfl := Option.some.inj done
    exact exact_.eraseOrphansFor peer
  | limit nMaxOrphans draw =>
    obtain rfl := Option.some.inj done
    exact (OrphanPool.limitOrphanTxSize_spec nMaxOrphans draw exact_ 0).1
  | resolve rounds hash => exact (@resolveOrphans_spec S accept (fun _ _ => False) rounds st exact_ hash).1 st' done
  | tx rounds nMaxOrphanTx draw tx peer =>
    unfold OrphanState.step processTx at done
    dsimp only at done
    split at done
    · obtain rfl := Option.some.inj done
      exact exact_
    · split at done
      · exact (@resolveOrphans_spec S accept (fun _ _ => False) rounds { st with mempool := (accept st.mempool tx).2 } exact_ tx.getHash).1 st' done
      · split at done
        · obtain rfl := Option.some.inj done
          exact (OrphanPool.limitOrphanTxSize_spec nMaxOrphanTx draw (exact_.addOrphanTx tx peer) 0).1
        · obtain rfl := Option.some.inj done
          exact exact_
  | clear =>
    obtain rfl := Option.some.inj done
    exact OrphanPool.exact_empty

def OrphanState.run (accept : S → CTransaction → AcceptVerdict × S) (st : OrphanState S) (ops : List OrphanOp) : Option (OrphanState S) :=
  ops.foldlM (fun st op => st.step accept op) st

theorem run_exact {st : OrphanState S} (exact_ : st.pool.Exact) (ran : st.run accept ops = some st') : st'.pool.Exact := by
  induction ops generalizing st with
  | nil =>
    obtain rfl := Option.some.inj ran
    exact exact_
  | cons op ops ih =>
    unfold OrphanState.run at ran
    rw [List.foldlM_cons] at ran
    obtain ⟨st₁, first, rest⟩ := Option.bind_eq_some_iff.mp ran
    exact ih (step_exact exact_ first) rest

/-- After every run the index files the orphans under the parents they spend, no limit is passed, and the next resolution ends when a
transaction is not accepted into the pool that it is in. -/
theorem orphans_exact {accept : S → CTransaction → AcceptVerdict × S} {mempool : S} {ops : List OrphanOp} {st : OrphanState S}
    (ran : OrphanState.run accept { mempool } ops = some st) :
    (∀ p t, t ∈ (st.pool.mapOrphanTransactionsByPrev.lookup p).getD [] ↔
      ∃ orphan, st.pool.mapOrphanTransactions.lookup t = some orphan ∧ ∃ txin ∈ orphan.tx.vin, txin.prevout.hash = p) ∧
    (∀ p, st.pool.mapOrphanTransactionsByPrev.lookup p ≠ some []) ∧
    (∀ nMaxOrphans draw, (OrphanPool.limitOrphanTxSize nMaxOrphans draw st.pool 0).2.size ≤ nMaxOrphans) ∧
    ∀ inPool, KnowsPool accept inPool → ∀ rounds hash, st.pool.size < rounds → ∃ st', resolveOrphans accept rounds st hash = some st' := by
  have exact_ := run_exact OrphanPool.exact_empty ran
  refine ⟨exact_.index, exact_.noneEmpty, fun nMaxOrphans draw => ?_, fun inPool knows rounds hash enough => ?_⟩
  · rw [(OrphanPool.limitOrphanTxSize_spec nMaxOrphans draw exact_ 0).2]
    exact Nat.min_le_right _ _
  · exact (resolveOrphans_spec exact_ hash).2 knows enough

def twinSpend : CTransaction where
  hash := 5
  vin := [{ prevout := { hash := 3, n := 0 } }, { prevout := { hash := 3, n := 1 } }]
  vout := [{ nValue := 1, scriptPubKey := [] }]

def acceptNothing (s : Unit) (_ : CTransaction) : AcceptVerdict × Unit := ({ accepted := false, fMissingInputs := true, nDoS := 0 }, s)

theorem twinSpend_filed : ∃ st, OrphanState.run acceptNothing { mempool := () } [.add twinSpend 7, .resolve 2 3, .erase 4] = some st ∧
    5 ∈ (st.pool.mapOrphanTransactionsByPrev.lookup 3).getD [] ∧ ∀ draw, (OrphanPool.limitOrphanTxSize 0 draw st.pool 0).2.size ≤ 0 := by
  have ran : OrphanState.run acceptNothing { mempool := () } [.add twinSpend 7, .resolve 2 3, .erase 4] =
      some { pool := (({} : OrphanPool).addOrphanTx twinSpend 7).2, mempool := () } := rfl
  obtain ⟨index, _, limits, _⟩ := orphans_exact ran
  exact ⟨_, ran, (index 3 5).mpr ⟨{ tx := twinSpend, fromPeer := 7 }, rfl, by decide⟩, limits 0⟩

end Resolution

end SchillingCoin
