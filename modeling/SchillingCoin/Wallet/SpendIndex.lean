import SchillingCoin.Wallet.Spends
import SchillingCoin.Lib.Run

/-!
`mapTxSpends` against `mapWallet`: which calls keep the index exact, and what `IsSpent` answers over an exact index.
-/

namespace SchillingCoin

namespace CWallet

variable (wtx : CWalletTx) (ctx : WalletContext) (hashBlock : uint256) (wtxIn : CWalletTx)

def spends : List COutPoint := if wtx.tx.isCoinBase then [] else wtx.tx.vin.map CTxIn.prevout

structure SameTxs (w w' : CWallet) : Prop where
  txs : ∀ hash, (w'.mapWallet.lookup hash).map CWalletTx.tx = (w.mapWallet.lookup hash).map CWalletTx.tx
  fileBacked : w'.fFileBacked = w.fFileBacked

def Exact (w : CWallet) : Prop :=
  ∀ outpoint hash, (outpoint, hash) ∈ w.mapTxSpends ↔ ∃ wtx, w.mapWallet.lookup hash = some wtx ∧ outpoint ∈ spends wtx

def Covered (w : CWallet) : Prop := ∀ p ∈ w.mapTxSpends, (w.mapWallet.lookup p.2).isSome

variable {w w' w'' : CWallet}

theorem Exact.covered (exact_ : w.Exact) : w.Covered := by
  intro p member
  obtain ⟨wtx, found, _⟩ := (exact_ p.1 p.2).mp member
  simp [found]

namespace SameTxs

theorem refl (w : CWallet) : SameTxs w w := ⟨fun _ => rfl, rfl⟩

theorem trans (first : SameTxs w w') (second : SameTxs w' w'') : SameTxs w w'' :=
  ⟨fun hash => (second.txs hash).trans (first.txs hash), second.fileBacked.trans first.fileBacked⟩

theorem isSome (same : SameTxs w w') (hash : uint256) : (w'.mapWallet.lookup hash).isSome = (w.mapWallet.lookup hash).isSome := by
  have mapped := congrArg Option.isSome (same.txs hash)
  simpa using mapped

theorem spends_iff (same : SameTxs w w') (outpoint : COutPoint) (hash : uint256) :
    (∃ wtx, w'.mapWallet.lookup hash = some wtx ∧ outpoint ∈ spends wtx) ↔
      ∃ wtx, w.mapWallet.lookup hash = some wtx ∧ outpoint ∈ spends wtx := by
  have txs := same.txs hash
  cases before : w.mapWallet.lookup hash with
  | none =>
    rw [before, Option.map_none, Option.map_eq_none_iff] at txs
    simp [txs]
  | some wtx =>
    rw [before, Option.map_some] at txs
    obtain ⟨wtx', found, sameTx⟩ := Option.map_eq_some_iff.mp txs
    simp [found, spends, sameTx]

theorem exact (same : SameTxs w w') (index : w'.mapTxSpends = w.mapTxSpends) (exact_ : w.Exact) : w'.Exact := by
  intro outpoint hash
  rw [index, same.spends_iff]
  exact exact_ outpoint hash

end SameTxs

theorem modify_index (hash : uint256) (change : CWalletTx → CWalletTx) : (w.modify hash change).mapTxSpends = w.mapTxSpends := by
  unfold modify
  split <;> rfl

theorem modify_same (hash : uint256) {change : CWalletTx → CWalletTx} (keeps : ∀ wtx, (change wtx).tx = wtx.tx) :
    SameTxs w (w.modify hash change) := by
  unfold modify
  split
  · exact SameTxs.refl w
  · rename_i wtx found
    refine ⟨fun h => ?_, rfl⟩
    rw [StdMap.lookup_insert_ite]
    split
    · rename_i here
      rw [here, found, Option.map_some, Option.map_some, keeps]
    · rfl

theorem oldest_ok (present : ∀ hash ∈ range, (w.mapWallet.lookup hash).isSome) (nMinOrderPos : Int)
    (copyFrom : Option (uint256 × CWalletTx)) : ∃ found, w.oldest range nMinOrderPos copyFrom = .ok found := by
  induction range generalizing nMinOrderPos copyFrom with
  | nil => exact ⟨copyFrom, rfl⟩
  | cons hash rest ih =>
    obtain ⟨wtx, found⟩ := Option.isSome_iff_exists.mp (present hash (by simp))
    have later := ih fun h member => present h (List.mem_cons_of_mem _ member)
    simp only [oldest, found]
    split
    · exact later _ _
    · exact later _ _

theorem copyMetaData_same (copyFrom : uint256 × CWalletTx) (range : List uint256) (w : CWallet) :
    SameTxs w (range.foldl (copyMetaData copyFrom) w) ∧ (range.foldl (copyMetaData copyFrom) w).mapTxSpends = w.mapTxSpends := by
  induction range generalizing w with
  | nil => exact ⟨SameTxs.refl w, rfl⟩
  | cons hash rest ih =>
    have here : SameTxs w (copyMetaData copyFrom w hash) ∧ (copyMetaData copyFrom w hash).mapTxSpends = w.mapTxSpends := by
      unfold copyMetaData
      split
      · exact ⟨SameTxs.refl w, rfl⟩
      · exact ⟨modify_same hash fun _ => rfl, modify_index hash _⟩
    obtain ⟨same, index⟩ := ih (copyMetaData copyFrom w hash)
    exact ⟨here.1.trans same, index.trans here.2⟩

theorem syncMetaData_ok (present : ∀ hash ∈ range, (w.mapWallet.lookup hash).isSome) :
    ∃ w', w.syncMetaData range = .ok w' ∧ SameTxs w w' ∧ w'.mapTxSpends = w.mapTxSpends := by
  obtain ⟨copyFrom, found⟩ := oldest_ok present (2 ^ 31 - 1) none
  simp only [syncMetaData, found]
  cases copyFrom with
  | none => exact ⟨w, rfl, SameTxs.refl w, rfl⟩
  | some copyFrom => exact ⟨_, rfl, copyMetaData_same copyFrom range w⟩

variable {wtxid hash hashTx : uint256} {result : Except WalletAbort CWallet}

theorem addSpend_ok (covered : w.Covered) (present : (w.mapWallet.lookup wtxid).isSome)
    (outpoint : COutPoint) :
    ∃ w', addSpend wtxid w outpoint = .ok w' ∧ SameTxs w w' ∧ w'.mapTxSpends = w.mapTxSpends ++ [(outpoint, wtxid)] := by
  obtain ⟨added, isAdded⟩ : ∃ added : CWallet, added = { w with
      mapTxSpends := w.mapTxSpends ++ [(outpoint, wtxid)]
      setLockedCoins := w.setLockedCoins.filter (· ≠ outpoint) } := ⟨_, rfl⟩
  have present' : ∀ hash ∈ added.spendersOf outpoint, (added.mapWallet.lookup hash).isSome := by
    subst isAdded
    intro hash member
    obtain ⟨p, inside, rfl⟩ := List.mem_map.mp member
    rcases List.mem_append.mp (List.mem_of_mem_filter inside) with old | new
    · exact covered p old
    · rw [List.mem_singleton.mp new]
      exact present
  obtain ⟨w', done, same, index⟩ := syncMetaData_ok present'
  subst isAdded
  exact ⟨w', done, ⟨same.txs, same.fileBacked⟩, index⟩

theorem addSpends_ok (covered : w.Covered) (present : (w.mapWallet.lookup wtxid).isSome)
    (outpoints : List COutPoint) :
    ∃ w', outpoints.foldlM (addSpend wtxid) w = .ok w' ∧ SameTxs w w' ∧
      w'.mapTxSpends = w.mapTxSpends ++ outpoints.map fun outpoint => (outpoint, wtxid) := by
  induction outpoints generalizing w with
  | nil => exact ⟨w, rfl, SameTxs.refl w, by simp⟩
  | cons outpoint rest ih =>
    obtain ⟨mid, done, same, index⟩ := addSpend_ok covered present outpoint
    have covered' : mid.Covered := by
      intro p member
      rw [index] at member
      rw [same.isSome]
      rcases List.mem_append.mp member with old | new
      · exact covered p old
      · rw [List.mem_singleton.mp new]
        exact present
    obtain ⟨w', rest_, same', index'⟩ := ih covered' (by rw [same.isSome]; exact present)
    refine ⟨w', ?_, same.trans same', ?_⟩
    · rw [List.foldlM_cons, done]
      exact rest_
    · rw [index', index, List.map_cons, List.append_assoc]
      rfl

theorem addToSpends_ok {wtx : CWalletTx} (covered : w.Covered) (found : w.mapWallet.lookup wtxid = some wtx) :
    ∃ w', w.addToSpends wtxid = .ok w' ∧ SameTxs w w' ∧
      w'.mapTxSpends = w.mapTxSpends ++ (spends wtx).map fun outpoint => (outpoint, wtxid) := by
  simp only [addToSpends, found, spends]
  split
  · exact ⟨w, rfl, SameTxs.refl w, by simp⟩
  · exact addSpends_ok covered (by simp [found]) _

def Keeps (w : CWallet) : Except WalletAbort CWallet → Prop
  | .ok w' => SameTxs w w' ∧ w'.mapTxSpends = w.mapTxSpends
  | .error e => e = .assertion

theorem Keeps.self (w : CWallet) : Keeps w (.ok w) := ⟨SameTxs.refl w, rfl⟩

theorem Keeps.after (kept : Keeps w' result) (same : SameTxs w w') (index : w'.mapTxSpends = w.mapTxSpends) :
    Keeps w result := by
  cases result with
  | error e => exact kept
  | ok w'' => exact ⟨same.trans kept.1, kept.2.trans index⟩

theorem SameTxs.covered (same : SameTxs w w') (index : w'.mapTxSpends = w.mapTxSpends) (covered : w.Covered) : w'.Covered := by
  intro p member
  rw [same.isSome]
  exact covered p (index ▸ member)

theorem foldlM_keeps {f : CWallet → α → Except WalletAbort CWallet} {xs : List α}
    (each : ∀ s, SameTxs w s → s.mapTxSpends = w.mapTxSpends → ∀ x ∈ xs, Keeps s (f s x)) : Keeps w (xs.foldlM f w) := by
  induction xs generalizing w with
  | nil => exact Keeps.self w
  | cons x xs ih =>
    have first := each w (SameTxs.refl w) rfl x (by simp)
    rw [List.foldlM_cons]
    cases done : f w x with
    | error e =>
      rw [done] at first
      exact first
    | ok mid =>
      rw [done] at first
      have rest : Keeps mid (xs.foldlM f mid) := ih fun s same index y member =>
        each s (first.1.trans same) (index.trans first.2) y (List.mem_cons_of_mem _ member)
      show Keeps w (xs.foldlM f mid)
      exact rest.after first.1 first.2

/-- What a round of `MarkConflicted` or `AbandonTransaction` does with a transaction of the wallet. -/
def Visits (visit : CWallet → uint256 → Except WalletAbort (CWallet × List uint256)) : Prop :=
  ∀ s k, (s.mapWallet.lookup k).isSome →
    match visit s k with
    | .ok (s', next) => SameTxs s s' ∧ s'.mapTxSpends = s.mapTxSpends ∧ ∀ n ∈ next, n ∈ s.mapTxSpends.map Prod.snd
    | .error e => e = .assertion

theorem mem_index_of_childrenOf (member : child ∈ w.childrenOf hash) : child ∈ w.mapTxSpends.map Prod.snd := by
  obtain ⟨p, inside, rfl⟩ := List.mem_map.mp member
  exact List.mem_map_of_mem (List.mem_of_mem_filter inside)

theorem visitConflicted_visits (conflictconfirms : Int) : Visits (visitConflicted ctx hashBlock conflictconfirms) := by
  intro s k present
  obtain ⟨wtx, found⟩ := Option.isSome_iff_exists.mp present
  simp only [visitConflicted, found]
  split_ifs
  · exact ⟨modify_same k fun _ => rfl, modify_index k _, fun n => mem_index_of_childrenOf⟩
  · exact ⟨SameTxs.refl s, rfl, by simp⟩

theorem visitAbandoned_visits : Visits (visitAbandoned ctx) := by
  intro s k present
  obtain ⟨wtx, found⟩ := Option.isSome_iff_exists.mp present
  simp only [visitAbandoned, found]
  split_ifs
  · rfl
  · rfl
  · exact ⟨modify_same k fun _ => rfl, modify_index k _, fun n => mem_index_of_childrenOf⟩
  · exact ⟨SameTxs.refl s, rfl, by simp⟩

/-- The loop takes up only the first transaction and spenders of the index, so its lookups find what they look for and
it ends within the rounds of the model. -/
theorem loop_keeps (visits : Visits visit) (covered : w.Covered) (present : (w.mapWallet.lookup hashTx).isSome) :
    Keeps w (Worklist.loop (· ≤ ·) visit .rounds (w.mapTxSpends.length + 1) [hashTx] [] w) := by
  have found : ∀ s, SameTxs w s → ∀ k ∈ hashTx :: w.mapTxSpends.map Prod.snd, (s.mapWallet.lookup k).isSome := by
    intro s same k inside
    rw [same.isSome]
    rcases List.mem_cons.mp inside with rfl | inside
    · exact present
    · obtain ⟨p, member, rfl⟩ := List.mem_map.mp inside
      exact covered p member
  have bound : ((hashTx :: w.mapTxSpends.map Prod.snd).dedup.filter (· ∉ ([] : List uint256))).length ≤
      w.mapTxSpends.length + 1 := by
    calc _ ≤ (hashTx :: w.mapTxSpends.map Prod.snd).dedup.length := List.length_filter_le _ _
      _ ≤ (hashTx :: w.mapTxSpends.map Prod.snd).length := (List.dedup_sublist _).length_le
      _ = w.mapTxSpends.length + 1 := by simp
  have kept : ∀ s k s' next, SameTxs w s ∧ s.mapTxSpends = w.mapTxSpends → k ∈ hashTx :: w.mapTxSpends.map Prod.snd →
      visit s k = .ok (s', next) → (SameTxs w s' ∧ s'.mapTxSpends = w.mapTxSpends) ∧
        ∀ n ∈ next, n ∈ hashTx :: w.mapTxSpends.map Prod.snd := by
    rintro s k s' next ⟨same, index⟩ inside visited
    have kept := visits s k (found s same k inside)
    rw [visited] at kept
    refine ⟨⟨same.trans kept.1, kept.2.1.trans index⟩, fun n member => List.mem_cons_of_mem _ ?_⟩
    rw [← index]
    exact kept.2.2 n member
  obtain ⟨ended, failed⟩ : (∀ s', Worklist.loop (· ≤ ·) visit .rounds (w.mapTxSpends.length + 1) [hashTx] [] w = .ok s' → _) ∧
      ∀ e, Worklist.loop (· ≤ ·) visit .rounds (w.mapTxSpends.length + 1) [hashTx] [] w = .error e → _ :=
    Worklist.loop_spec (hashTx :: w.mapTxSpends.map Prod.snd) (fun s => SameTxs w s ∧ s.mapTxSpends = w.mapTxSpends) kept
      ⟨SameTxs.refl w, rfl⟩ (List.nodup_singleton _) (by simp) (by simp) bound
  cases result : Worklist.loop (· ≤ ·) visit .rounds (w.mapTxSpends.length + 1) [hashTx] [] w with
  | ok w' => exact ended w' result
  | error e =>
    obtain ⟨s, k, ⟨same, _⟩, inside, stopped⟩ := failed e result
    have kept := visits s k (found s same k inside)
    rw [stopped] at kept
    exact kept

theorem markConflicted_keeps (covered : w.Covered) (present : (w.mapWallet.lookup hashTx).isSome) :
    Keeps w (markConflicted ctx hashBlock hashTx w) := by
  unfold markConflicted
  split
  · rfl
  · rename_i pindex _
    by_cases confirmed : (if ctx.chainActive.contains pindex then
        -((ctx.chainActive.vChain.length : Int) - 1 - pindex.nHeight + 1) else 0) < 0
    · simp only [confirmed, decide_true, Bool.not_true, Bool.false_eq_true, if_false]
      exact loop_keeps (visitConflicted_visits ctx hashBlock _) covered present
    · simp only [confirmed, decide_false, Bool.not_false, if_true]
      rfl

theorem abandonTransaction_keeps (covered : w.Covered) (present : (w.mapWallet.lookup hashTx).isSome) :
    Keeps w (abandonTransaction ctx hashTx w) := by
  obtain ⟨origtx, found⟩ := Option.isSome_iff_exists.mp present
  simp only [abandonTransaction, found]
  split
  · exact Keeps.self w
  · exact loop_keeps (visitAbandoned_visits ctx) covered present

theorem conflictByInput_keeps (covered : w.Covered) (present : (w.mapWallet.lookup hash).isSome) (prevout : COutPoint) :
    Keeps w (conflictByInput ctx hash w prevout) := by
  unfold conflictByInput
  split
  · exact Keeps.self w
  · split
    · exact markConflicted_keeps ctx _ covered present
    · exact Keeps.self w

theorem conflictSpenders_keeps (hash : uint256) (covered : w.Covered) (prevout : COutPoint) :
    Keeps w (conflictSpenders ctx hashBlock hash w prevout) := by
  apply foldlM_keeps
  intro s same index spender member
  have present : (s.mapWallet.lookup spender).isSome := by
    obtain ⟨p, inside, rfl⟩ := List.mem_map.mp member
    rw [same.isSome]
    exact covered p (List.mem_of_mem_filter inside)
  split
  · exact markConflicted_keeps ctx hashBlock (same.covered index covered) present
  · exact Keeps.self s

theorem merge_tx (wtx : CWalletTx) : (merge ctx wtxIn wtx).tx = wtx.tx := by
  simp only [merge, CWalletTx.updateTimeSmart, apply_ite CWalletTx.tx, ite_self]

def KeepsExact : Except WalletAbort CWallet → Prop
  | .ok w => w.Exact
  | .error e => e = .assertion

theorem Keeps.keepsExact (kept : Keeps w result) (exact_ : w.Exact) : KeepsExact result := by
  cases result with
  | error e => exact kept
  | ok w' => exact kept.1.exact kept.2 exact_

/-- Where a transaction takes its place in the wallet, the index with its pairs is exact just when nothing is left of
what stood there before. -/
theorem exact_insert_iff {wtx : CWalletTx} (exact_ : w.Exact)
    (same : SameTxs { w with mapWallet := w.mapWallet.insert hash wtx } w')
    (index : w'.mapTxSpends = w.mapTxSpends ++ (spends wtx).map fun outpoint => (outpoint, hash)) :
    w'.Exact ↔ ∀ old, w.mapWallet.lookup hash = some old → ∀ outpoint ∈ spends old, outpoint ∈ spends wtx := by
  have pairs : ∀ outpoint h, (outpoint, h) ∈ w'.mapTxSpends ↔
      (∃ old, w.mapWallet.lookup h = some old ∧ outpoint ∈ spends old) ∨ h = hash ∧ outpoint ∈ spends wtx := by
    intro outpoint h
    rw [index, List.mem_append, exact_ outpoint h]
    constructor
    · rintro (old | new)
      · exact Or.inl old
      · obtain ⟨o, spent, same⟩ := List.mem_map.mp new
        obtain ⟨rfl, rfl⟩ := Prod.mk.inj same
        exact Or.inr ⟨rfl, spent⟩
    · rintro (old | ⟨rfl, spent⟩)
      · exact Or.inl old
      · exact Or.inr (List.mem_map.mpr ⟨outpoint, spent, rfl⟩)
  constructor
  · intro exactAfter old found outpoint spent
    have inIndex := (pairs outpoint hash).mpr (Or.inl ⟨old, found, spent⟩)
    obtain ⟨now, foundNow, spentNow⟩ := (same.spends_iff outpoint hash).mp ((exactAfter outpoint hash).mp inIndex)
    rw [StdMap.lookup_insert_ite, if_pos rfl] at foundNow
    rw [Option.some.inj foundNow]
    exact spentNow
  · intro replaced outpoint h
    rw [pairs, same.spends_iff, StdMap.lookup_insert_ite]
    by_cases here : h = hash
    · subst here
      rw [if_pos rfl]
      constructor
      · rintro (⟨old, found, spent⟩ | ⟨_, spent⟩)
        · exact ⟨wtx, rfl, replaced old found outpoint spent⟩
        · exact ⟨wtx, rfl, spent⟩
      · rintro ⟨now, isNow, spent⟩
        exact Or.inr ⟨rfl, Option.some.inj isNow ▸ spent⟩
    · simp [here]

theorem covered_insert (covered : w.Covered) (hash : uint256) (wtx : CWalletTx) (nOrderPosNext : Int) :
    CWallet.Covered { w with mapWallet := w.mapWallet.insert hash wtx, nOrderPosNext := nOrderPosNext } := by
  intro p member
  show ((w.mapWallet.insert hash wtx).lookup p.2).isSome
  rw [StdMap.lookup_insert_ite]
  split
  · rfl
  · exact covered p member

theorem load_iff (exact_ : w.Exact) :
    KeepsExact (w.addToWallet ctx wtxIn true) ↔
      ∀ old, w.mapWallet.lookup wtxIn.getHash = some old → ∀ outpoint ∈ spends old, outpoint ∈ spends wtxIn := by
  have covered := covered_insert exact_.covered wtxIn.getHash wtxIn w.nOrderPosNext
  have found : (w.mapWallet.insert wtxIn.getHash wtxIn).lookup wtxIn.getHash = some wtxIn := by simp
  obtain ⟨w', done, same, index⟩ := addToSpends_ok covered found
  have result : w.addToWallet ctx wtxIn true = .ok w' := done
  rw [result]
  exact exact_insert_iff exact_ same index

theorem addToWallet_keepsExact (exact_ : w.Exact) : KeepsExact (w.addToWallet ctx wtxIn false) := by
  simp only [addToWallet, Bool.false_eq_true, if_false]
  split
  · rename_i wtx found
    have kept : Keeps w (.ok (w.modify wtxIn.getHash (merge ctx wtxIn))) :=
      ⟨modify_same wtxIn.getHash (merge_tx ctx wtxIn), modify_index _ _⟩
    simp only [modify, found] at kept
    exact kept.keepsExact exact_
  · rename_i absent
    obtain ⟨wtx, isWtx⟩ : ∃ wtx, wtx = { wtxIn with nTimeReceived := ctx.getAdjustedTime, nOrderPos := w.nOrderPosNext }.updateTimeSmart ctx :=
      ⟨_, rfl⟩
    rw [← isWtx]
    have covered := covered_insert exact_.covered wtxIn.getHash wtx (w.nOrderPosNext + 1)
    have found : (w.mapWallet.insert wtxIn.getHash wtx).lookup wtxIn.getHash = some wtx := by simp
    obtain ⟨mid, done, same, index⟩ := addToSpends_ok covered found
    rw [done]
    have exactMid : mid.Exact := (exact_insert_iff exact_ ⟨same.txs, same.fileBacked⟩ index).mpr (by simp [absent])
    have present : (mid.mapWallet.lookup wtxIn.getHash).isSome := by
      rw [same.isSome]
      simp
    have kept : Keeps mid ((wtx.tx.vin.map CTxIn.prevout).foldlM (conflictByInput ctx wtxIn.getHash) mid) := by
      apply foldlM_keeps
      intro s sameMid indexMid prevout _
      apply conflictByInput_keeps ctx (sameMid.covered indexMid exactMid.covered)
      rw [sameMid.isSome]
      exact present
    exact kept.keepsExact exactMid

theorem conflictBlock_keeps (tx : CTransaction) (pblock : Option (uint256 × List CTransaction)) (covered : w.Covered) :
    Keeps w (w.conflictBlock ctx tx pblock) := by
  unfold conflictBlock
  split
  · exact Keeps.self w
  · rename_i block
    split
    · apply foldlM_keeps
      intro s same index prevout _
      exact conflictSpenders_keeps ctx block.1 tx.hash (same.covered index covered) prevout
    · exact Keeps.self w

theorem addToWalletIfInvolvingMe_keepsExact (tx : CTransaction) (pblock : Option (uint256 × List CTransaction)) (fUpdate : Bool)
    (exact_ : w.Exact) : KeepsExact (w.addToWalletIfInvolvingMe ctx tx pblock fUpdate) := by
  have first := (conflictBlock_keeps ctx tx pblock exact_.covered).keepsExact exact_
  unfold addToWalletIfInvolvingMe
  cases done : w.conflictBlock ctx tx pblock with
  | error e =>
    rw [done] at first
    exact first
  | ok mid =>
    rw [done] at first
    show KeepsExact (if _ then _ else _)
    split
    · exact first
    · split
      · exact addToWallet_keepsExact ctx _ first
      · exact first

theorem erase_iff (hash : uint256) (exact_ : w.Exact) :
    (w.eraseFromWallet hash).Exact ↔ w.fFileBacked = true → ∀ old, w.mapWallet.lookup hash = some old → spends old = [] := by
  unfold eraseFromWallet
  split
  · rename_i backed
    simp only [backed, forall_const]
    constructor
    · intro exactAfter old found
      apply List.eq_nil_iff_forall_not_mem.mpr
      intro outpoint spent
      have stale : (outpoint, hash) ∈ w.mapTxSpends := (exact_ outpoint hash).mpr ⟨old, found, spent⟩
      obtain ⟨_, foundNow, _⟩ := (exactAfter outpoint hash).mp stale
      rw [StdMap.lookup_erase_ite, if_pos rfl] at foundNow
      exact nomatch foundNow
    · intro nothing outpoint h
      show (outpoint, h) ∈ w.mapTxSpends ↔ ∃ wtx, (w.mapWallet.erase hash).lookup h = some wtx ∧ outpoint ∈ spends wtx
      rw [exact_ outpoint h, StdMap.lookup_erase_ite]
      by_cases here : h = hash
      · subst here
        rw [if_pos rfl]
        constructor
        · rintro ⟨old, found, spent⟩
          rw [nothing old found] at spent
          exact absurd spent List.not_mem_nil
        · rintro ⟨wtx, none_, _⟩
          exact nomatch none_
      · rw [if_neg here]
  · rename_i notBacked
    simp [notBacked, exact_]

theorem stands_iff (wtx : CWalletTx) :
    stands ctx wtx = true ↔ 0 < wtx.getDepthInMainChain ctx ∨
      wtx.getDepthInMainChain ctx = 0 ∧ wtx.isAbandoned = false ∧ ¬(wtx.tx.isCoinStake = true ∧ ctx.inMempool wtx.getHash = false) := by
  have pair : wtx.getDepthAndMempool ctx =
      (wtx.getDepthInMainChain ctx, wtx.getDepthInMainChain ctx == 0 && !ctx.inMempool wtx.getHash) := rfl
  unfold stands
  rw [pair]
  generalize wtx.getDepthInMainChain ctx = depth
  by_cases waiting : depth = 0
  · cases wtx.isAbandoned <;> cases wtx.tx.isCoinStake <;> cases ctx.inMempool wtx.getHash <;> simp [waiting]
  · simp [waiting]

theorem isSpent_iff (exact_ : w.Exact) (outpoint : COutPoint) :
    w.isSpent ctx outpoint = true ↔
      ∃ hash wtx, w.mapWallet.lookup hash = some wtx ∧ outpoint ∈ spends wtx ∧ stands ctx wtx = true := by
  simp only [isSpent, List.any_eq_true, Option.any_eq_true, spendersOf, List.mem_map, List.mem_filter, beq_iff_eq]
  constructor
  · rintro ⟨hash, ⟨⟨o, h⟩, ⟨inside, rfl⟩, rfl⟩, wtx, found, standing⟩
    obtain ⟨wtx', found', spent⟩ := (exact_ o h).mp inside
    rw [found] at found'
    obtain rfl := Option.some.inj found'
    exact ⟨h, wtx, found, spent, standing⟩
  · rintro ⟨hash, wtx, found, spent, standing⟩
    have inside := (exact_ outpoint hash).mpr ⟨wtx, found, spent⟩
    exact ⟨hash, ⟨(outpoint, hash), ⟨inside, rfl⟩, rfl⟩, wtx, found, standing⟩

/-- The index is exact and `IsSpent` answers by it; a run that has ended did not end in a lookup. -/
def IndexHolds : Except WalletAbort CWallet → Prop
  | .ok w => w.Exact ∧ ∀ ctx outpoint, w.isSpent ctx outpoint = true ↔
      ∃ hash wtx, w.mapWallet.lookup hash = some wtx ∧ outpoint ∈ spends wtx ∧
        (0 < wtx.getDepthInMainChain ctx ∨ wtx.getDepthInMainChain ctx = 0 ∧ wtx.isAbandoned = false ∧
          ¬(wtx.tx.isCoinStake = true ∧ ctx.inMempool wtx.getHash = false))
  | .error e => e ≠ .lookup ∧ e ≠ .rounds

/-- The call takes no transaction away, by erasing it or by loading another one over it, whose spends stay in the index. -/
def Spares : Except WalletAbort CWallet → WalletContext × Op → Prop
  | .ok w, (_, .eraseFromWallet hash) => w.fFileBacked = true → ∀ old, w.mapWallet.lookup hash = some old → spends old = []
  | .ok w, (_, .addToWallet wtxIn true) =>
    ∀ old, w.mapWallet.lookup wtxIn.getHash = some old → ∀ outpoint ∈ spends old, outpoint ∈ spends wtxIn
  | _, _ => True

theorem indexHolds_iff : IndexHolds result ↔ KeepsExact result := by
  cases result with
  | error e => cases e <;> simp [IndexHolds, KeepsExact]
  | ok w =>
    refine ⟨And.left, fun exact_ => ⟨exact_, fun ctx outpoint => ?_⟩⟩
    simp only [isSpent_iff ctx exact_, stands_iff]

theorem step_iff (holds : KeepsExact result) (d : WalletContext × Op) :
    KeepsExact (step result d) ↔ Spares result d := by
  cases result with
  | error e =>
    exact ⟨fun _ => trivial, fun _ => holds⟩
  | ok w =>
    obtain ⟨ctx, op⟩ := d
    cases op with
    | addToWallet wtxIn fFromLoadWallet =>
      cases fFromLoadWallet with
      | true => exact load_iff ctx wtxIn holds
      | false => exact ⟨fun _ => trivial, fun _ => addToWallet_keepsExact ctx wtxIn holds⟩
    | addToWalletIfInvolvingMe tx pblock fUpdate =>
      exact ⟨fun _ => trivial, fun _ => addToWalletIfInvolvingMe_keepsExact ctx tx pblock fUpdate holds⟩
    | abandonTransaction hashTx =>
      refine ⟨fun _ => trivial, fun _ => ?_⟩
      simp only [step]
      split
      · rename_i present
        exact (abandonTransaction_keeps ctx (Exact.covered holds) present).keepsExact holds
      · exact holds
    | eraseFromWallet hash => exact erase_iff hash holds

/-- The index stays exact throughout a run exactly when every call spares the transactions it has pairs for. -/
theorem index_holds_iff_spares (fFileBacked : Bool) (ops : List (WalletContext × Op)) :
    (∀ before, before <+: ops → IndexHolds (run fFileBacked before)) ↔
      ∀ before d, before ++ [d] <+: ops → Spares (run fFileBacked before) d := by
  apply Run.kept_iff_meets (fun _ => True) IndexHolds trivial fun _ _ _ => trivial
  · apply indexHolds_iff.mpr
    intro outpoint hash
    simp
  · intro result d _ holds
    rw [indexHolds_iff]
    exact step_iff (indexHolds_iff.mp holds) d

def bareNode : WalletContext where
  mapBlockIndex := ∅
  chainActive := ⟨[], CChain.heights_nil⟩
  inMempool := fun _ => false
  getTransactionLockSignatures := fun _ => 0
  nSwiftTXDepth := 5
  getAdjustedTime := 0
  isMine := fun _ => true
  isFromMe := fun _ => true

def payment (hash : uint256) : CWalletTx := { tx := { hash := hash, vin := [{ prevout := ⟨5, 0⟩ }], vout := [] } }

/-- The pair of an erased transaction stays in the index, and the next transaction that spends the outpoint ends the
node in `SyncMetaData`. -/
theorem erase_leaves_pair :
    ¬IndexHolds (run true [(bareNode, .addToWallet (payment 7) false), (bareNode, .eraseFromWallet 7)]) ∧
      run true [(bareNode, .addToWallet (payment 7) false), (bareNode, .eraseFromWallet 7),
        (bareNode, .addToWallet (payment 8) false)] = .error .lookup := by
  refine ⟨fun holds => ?_, rfl⟩
  obtain ⟨wtx, found, _⟩ := (holds.1 ⟨5, 0⟩ 7).mp (by decide)
  exact nomatch found

end CWallet

end SchillingCoin
