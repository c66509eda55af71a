import SchillingCoin.Wallet.SpendIndex

/-!
How far conflicts and abandonment spread, after `MarkConflicted` and `AbandonTransaction` of `wallet.cpp`: over an exact index both mark
the transactions that depend on the first one, up to those that stand otherwise.
-/

namespace SchillingCoin

def CChain.depthOf (c : CChain) (pindex : CBlockIndex) : Int := (c.vChain.length : Int) - 1 - pindex.nHeight + 1

theorem CChain.depthOf_pos {c : CChain} (active : c.contains pindex = true) : 0 < c.depthOf pindex := by
  have found : c.vChain[pindex.nHeight]? = some pindex := eq_of_beq active
  have inside := (List.getElem?_eq_some_iff.mp found).1
  unfold depthOf
  omega

namespace CWallet

def SpendsFrom (w : CWallet) (parent hash : uint256) : Prop :=
  ∃ wtx outpoint, w.mapWallet.lookup hash = some wtx ∧ outpoint ∈ spends wtx ∧ outpoint.hash = parent

variable (hash : uint256) (ctx : WalletContext)

def Shallower (conflictconfirms : Int) (w : CWallet) (hash : uint256) : Prop :=
  ∃ wtx, w.mapWallet.lookup hash = some wtx ∧ conflictconfirms < wtx.getDepthInMainChain ctx

def Waiting (w : CWallet) (hash : uint256) : Prop :=
  ∃ wtx, w.mapWallet.lookup hash = some wtx ∧ wtx.getDepthInMainChain ctx = 0 ∧ wtx.isAbandoned = false

def Dependents (w : CWallet) (kind : uint256 → Prop) (hash : uint256) : uint256 → Prop := Worklist.Touched kind w.SpendsFrom hash

structure Marks (hashBlock : uint256) (w : CWallet) (marked : uint256 → Prop) (w' : CWallet) : Prop where
  changed : ∀ hash wtx, w.mapWallet.lookup hash = some wtx → marked hash →
    w'.mapWallet.lookup hash = some { wtx with nIndex := -1, hashBlock := hashBlock }
  others : ∀ hash, ¬ marked hash → w'.mapWallet.lookup hash = w.mapWallet.lookup hash
  rest : w' = { w with mapWallet := w'.mapWallet }

variable {w : CWallet}

theorem Exact.mem_childrenOf (exact_ : w.Exact) (parent hash : uint256) : hash ∈ w.childrenOf parent ↔ w.SpendsFrom parent hash := by
  unfold childrenOf SpendsFrom
  simp only [List.mem_map, List.mem_filter, beq_iff_eq, Prod.exists, exists_eq_right]
  constructor
  · rintro ⟨outpoint, inside, same⟩
    obtain ⟨wtx, found, spent⟩ := (exact_ outpoint hash).mp inside
    exact ⟨wtx, outpoint, found, spent, same⟩
  · rintro ⟨wtx, outpoint, found, spent, same⟩
    exact ⟨outpoint, (exact_ outpoint hash).mpr ⟨wtx, found, spent⟩, same⟩

theorem Marks.none (hashBlock : uint256) (w : CWallet) {marked : uint256 → Prop} (nothing : ∀ hash, ¬ marked hash) :
    Marks hashBlock w marked w :=
  ⟨fun hash _ _ isMarked => absurd isMarked (nothing hash), fun _ _ => rfl, rfl⟩

theorem lookup_modify {s : CWallet} (here : s.mapWallet.lookup now = some wtx) (change : CWalletTx → CWalletTx) (hash : uint256) :
    (s.modify now change).mapWallet.lookup hash = if hash = now then some (change wtx) else s.mapWallet.lookup hash := by
  simp only [CWallet.modify, here]
  exact StdMap.lookup_insert_ite _ _ _ _

variable {hashBlock hashTx : uint256}

theorem Marks.modify {marked : uint256 → Prop} (marks : Marks hashBlock w marked s) (found : w.mapWallet.lookup now = some wtx)
    (unmarked : ¬ marked now) :
    Marks hashBlock w (fun hash => hash = now ∨ marked hash)
      (s.modify now fun wtx => { wtx with nIndex := -1, hashBlock := hashBlock }) := by
  have here : s.mapWallet.lookup now = some wtx := (marks.others now unmarked).trans found
  refine ⟨?_, ?_, ?_⟩
  · intro hash wtx' found' isMarked
    rw [lookup_modify here]
    by_cases same : hash = now
    · subst same
      rw [if_pos rfl, Option.some.inj (found.symm.trans found')]
    · rw [if_neg same]
      exact marks.changed hash wtx' found' (isMarked.resolve_left same)
  · intro hash notMarked
    rw [lookup_modify here, if_neg fun same => notMarked (Or.inl same)]
    exact marks.others hash fun isMarked => notMarked (Or.inr isMarked)
  · have rest := marks.rest
    simp only [CWallet.modify, here]
    rw [rest]

theorem loop_marks {visit : CWallet → uint256 → Except WalletAbort (CWallet × List uint256)}
    (visits : ∀ s marked hash s' next, Dependents w kind hashTx hash → ¬ marked hash → Marks hashBlock w marked s → visit s hash = .ok (s', next) → kind hash ∧ s' = s.modify hash (fun wtx => { wtx with nIndex := -1, hashBlock := hashBlock }) ∧ next = s.childrenOf hash ∨ ¬ kind hash ∧ s' = s ∧ next = [])
    (present : ∀ hash, kind hash → ∃ wtx, w.mapWallet.lookup hash = some wtx) (exact_ : w.Exact)
    (ended : Worklist.loop (· ≤ ·) visit .rounds rounds [hashTx] [] w = .ok w') :
    Marks hashBlock w (fun hash => Dependents w kind hashTx hash ∧ kind hash) w' := by
  apply Worklist.loop_marks (fun s marked => Marks hashBlock w marked s) _ Worklist.Frontier.init _ ended
  · intro s marked hash s' next dependent unmarked marks visited
    rcases visits s marked hash s' next dependent unmarked marks visited with ⟨through, rfl, rfl⟩ | stopped
    · obtain ⟨wtx, found⟩ := present hash through
      refine Or.inl ⟨through, marks.modify found unmarked, fun child => ?_⟩
      have index : s.childrenOf hash = w.childrenOf hash := by
        rw [marks.rest]
        rfl
      rw [index]
      exact exact_.mem_childrenOf hash child
    · exact Or.inr stopped
  · exact Marks.none hashBlock w fun hash both => List.not_mem_nil both.1

theorem loop_ends {visit : CWallet → uint256 → Except WalletAbort (CWallet × List uint256)}
    (Inv : CWallet → Prop) (safe : uint256 → Prop) (first : safe hashTx) (inv : Inv w)
    (visits : ∀ s hash, Inv s → safe hash → ∃ s' next, visit s hash = .ok (s', next) ∧ Inv s' ∧ ∀ n ∈ next, n ∈ w.mapTxSpends.map Prod.snd ∧ safe n) :
    ∃ w', Worklist.loop (· ≤ ·) visit .rounds (w.mapTxSpends.length + 1) [hashTx] [] w = .ok w' := by
  classical
  have universe_ (hash : uint256) : hash ∈ (hashTx :: w.mapTxSpends.map Prod.snd).filter safe ↔
      hash ∈ hashTx :: w.mapTxSpends.map Prod.snd ∧ safe hash := by
    rw [List.mem_filter, decide_eq_true_iff]
  have bound : (((hashTx :: w.mapTxSpends.map Prod.snd).filter safe).dedup.filter (· ∉ ([] : List uint256))).length ≤
      w.mapTxSpends.length + 1 := by
    calc _ ≤ ((hashTx :: w.mapTxSpends.map Prod.snd).filter safe).dedup.length := List.length_filter_le _ _
      _ ≤ ((hashTx :: w.mapTxSpends.map Prod.snd).filter safe).length := (List.dedup_sublist _).length_le
      _ ≤ (hashTx :: w.mapTxSpends.map Prod.snd).length := List.length_filter_le _ _
      _ = w.mapTxSpends.length + 1 := by simp
  have kept : ∀ s hash s' next, Inv s → hash ∈ (hashTx :: w.mapTxSpends.map Prod.snd).filter safe → visit s hash = .ok (s', next) →
      Inv s' ∧ ∀ n ∈ next, n ∈ (hashTx :: w.mapTxSpends.map Prod.snd).filter safe := by
    intro s hash s' next inv member visited
    obtain ⟨s'', next', visited', inv', inside⟩ := visits s hash inv ((universe_ hash).mp member).2
    rw [visited] at visited'
    cases visited'
    exact ⟨inv', fun n named => (universe_ n).mpr ⟨List.mem_cons_of_mem _ (inside n named).1, (inside n named).2⟩⟩
  obtain ⟨-, failed⟩ : _ ∧ ∀ e, Worklist.loop (· ≤ ·) visit .rounds (w.mapTxSpends.length + 1) [hashTx] [] w = .error e → _ :=
    Worklist.loop_spec _ Inv kept inv (List.nodup_singleton hashTx) (by simp) (by simp [first]) bound
  cases result : Worklist.loop (· ≤ ·) visit .rounds (w.mapTxSpends.length + 1) [hashTx] [] w with
  | ok w' => exact ⟨w', rfl⟩
  | error e =>
    obtain ⟨s, hash, inv', member, stopped⟩ := failed e result
    obtain ⟨s', next, visited, _⟩ := visits s hash inv' ((universe_ hash).mp member).2
    exact nomatch stopped.symm.trans visited

theorem markConflicted_marks (exact_ : w.Exact) {pindex : CBlockIndex}
    (known : ctx.mapBlockIndex.lookup hashBlock = some pindex) (active : ctx.chainActive.contains pindex = true)
    (present : (w.mapWallet.lookup hashTx).isSome) :
    ∃ w', markConflicted ctx hashBlock hashTx w = .ok w' ∧ Marks hashBlock w (fun hash =>
      Dependents w (Shallower ctx (-ctx.chainActive.depthOf pindex) w) hashTx hash ∧
        Shallower ctx (-ctx.chainActive.depthOf pindex) w hash) w' := by
  have deep := CChain.depthOf_pos active
  have loops : markConflicted ctx hashBlock hashTx w =
      Worklist.loop (· ≤ ·) (visitConflicted ctx hashBlock (-ctx.chainActive.depthOf pindex)) .rounds (w.mapTxSpends.length + 1)
        [hashTx] [] w := by
    have below : -ctx.chainActive.depthOf pindex < 0 := by omega
    unfold CChain.depthOf at below ⊢
    simp only [markConflicted, known, active, if_true, below, decide_true, Bool.not_true, Bool.false_eq_true, if_false]
  -- No visit ends the node: what the loop takes up is in the wallet.
  have noError : ∃ w', markConflicted ctx hashBlock hashTx w = .ok w' := by
    rw [loops]
    apply loop_ends (fun s => SameTxs w s ∧ s.mapTxSpends = w.mapTxSpends) (fun hash => (w.mapWallet.lookup hash).isSome) present
      ⟨SameTxs.refl w, rfl⟩
    rintro s hash ⟨same, index⟩ inWallet
    rw [← same.isSome] at inWallet
    have visits := visitConflicted_visits ctx hashBlock (-ctx.chainActive.depthOf pindex) s hash inWallet
    obtain ⟨wtx, found⟩ := Option.isSome_iff_exists.mp inWallet
    cases visited : visitConflicted ctx hashBlock (-ctx.chainActive.depthOf pindex) s hash with
    | error e =>
      simp only [visitConflicted, found] at visited
      split at visited <;> cases visited
    | ok result =>
      rw [visited] at visits
      refine ⟨result.1, result.2, rfl, ⟨same.trans visits.1, visits.2.1.trans index⟩, fun n named => ?_⟩
      have inside := visits.2.2 n named
      rw [index] at inside
      obtain ⟨p, member, rfl⟩ := List.mem_map.mp inside
      exact ⟨inside, exact_.covered p member⟩
  obtain ⟨w', ended⟩ := noError
  refine ⟨w', ended, ?_⟩
  rw [loops] at ended
  apply loop_marks _ _ exact_ ended
  · intro s marked hash s' next _ unmarked marks visited
    have lookup := marks.others hash unmarked
    unfold visitConflicted at visited
    rw [lookup] at visited
    cases found : w.mapWallet.lookup hash with
    | none =>
      rw [found] at visited
      cases visited
    | some wtx =>
      rw [found] at visited
      dsimp only at visited
      by_cases shallow : -ctx.chainActive.depthOf pindex < wtx.getDepthInMainChain ctx
      · rw [if_pos shallow] at visited
        cases visited
        exact Or.inl ⟨⟨wtx, found, shallow⟩, rfl, rfl⟩
      · rw [if_neg shallow] at visited
        cases visited
        refine Or.inr ⟨?_, rfl, rfl⟩
        rintro ⟨other, found', shallow'⟩
        rw [found] at found'
        cases found'
        exact shallow shallow'
  · rintro hash ⟨wtx, found, _⟩
    exact ⟨wtx, found⟩

def NoneAhead (w : CWallet) : Prop :=
  ∀ parent wtx hash spender, w.mapWallet.lookup parent = some wtx → wtx.getDepthInMainChain ctx = 0 → ctx.inMempool wtx.getHash = false →
    w.SpendsFrom parent hash → w.mapWallet.lookup hash = some spender →
      spender.getDepthInMainChain ctx ≤ 0 ∧ ctx.inMempool spender.getHash = false

/-- Neither confirmed nor in the mempool, as `AbandonTransaction` asks for before it goes on and returns true. -/
def Idle (w : CWallet) (hash : uint256) : Prop :=
  ∃ wtx, w.mapWallet.lookup hash = some wtx ∧ wtx.getDepthInMainChain ctx ≤ 0 ∧ ctx.inMempool wtx.getHash = false

def Aside (w s : CWallet) : Prop :=
  s.mapTxSpends = w.mapTxSpends ∧ ∀ hash wtx, w.mapWallet.lookup hash = some wtx →
    s.mapWallet.lookup hash = some wtx ∨
      s.mapWallet.lookup hash = some { wtx with nIndex := -1, hashBlock := CWalletTx.ABANDON_HASH }

theorem getDepth_abandoned (wtx : CWalletTx) :
    CWalletTx.getDepthInMainChain ctx { wtx with nIndex := -1, hashBlock := CWalletTx.ABANDON_HASH } = 0 := by
  unfold CWalletTx.getDepthInMainChain
  exact if_pos rfl

theorem abandonTransaction_loops (idle : Idle ctx w hashTx) :
    abandonTransaction ctx hashTx w =
      Worklist.loop (· ≤ ·) (visitAbandoned ctx) .rounds (w.mapTxSpends.length + 1) [hashTx] [] w := by
  obtain ⟨origtx, known, unconfirmed, outside⟩ := idle
  have goes : ¬ (origtx.getDepthInMainChain ctx > 0 ∨ ctx.inMempool origtx.getHash) := by
    rintro (confirmed | inPool)
    · omega
    · rw [outside] at inPool
      exact Bool.false_ne_true inPool
  simp only [abandonTransaction, known]
  rw [if_neg goes]

theorem abandonTransaction_ends (exact_ : w.Exact) (ahead : NoneAhead ctx w) (idle : Idle ctx w hashTx) :
    ∃ w', abandonTransaction ctx hashTx w = .ok w' := by
  rw [abandonTransaction_loops ctx idle]
  apply loop_ends (Aside w) (Idle ctx w) idle ⟨rfl, fun _ _ found => Or.inl found⟩
  rintro s hash ⟨index, as⟩ ⟨wtx, found, idle, notInPool⟩
  unfold visitAbandoned
  rcases as hash wtx found with same | already
  · rw [same]
    dsimp only
    rw [if_neg (by omega)]
    by_cases waiting : wtx.getDepthInMainChain ctx = 0 ∧ !wtx.isAbandoned
    · rw [if_pos waiting, notInPool, if_neg Bool.false_ne_true]
      refine ⟨_, _, rfl, ⟨(modify_index _ _).trans index, ?_⟩, ?_⟩
      · intro other wtx' found'
        rw [lookup_modify same]
        by_cases here : other = hash
        · subst here
          rw [if_pos rfl, Option.some.inj (found.symm.trans found')]
          exact Or.inr rfl
        · rw [if_neg here]
          exact as other wtx' found'
      · intro child named
        have inside := mem_index_of_childrenOf named
        rw [index] at inside
        have childrenOf : s.childrenOf hash = w.childrenOf hash := by
          unfold CWallet.childrenOf
          rw [index]
        rw [childrenOf, exact_.mem_childrenOf] at named
        obtain ⟨spender, _, hasSpender, _⟩ := id named
        exact ⟨inside, spender, hasSpender, ahead hash wtx child spender found waiting.1 notInPool named hasSpender⟩
    · rw [if_neg waiting]
      exact ⟨s, [], rfl, ⟨index, as⟩, fun n named => absurd named List.not_mem_nil⟩
  · rw [already]
    dsimp only
    rw [getDepth_abandoned, if_neg (by omega), if_neg (fun both => Bool.false_ne_true both.2)]
    exact ⟨s, [], rfl, ⟨index, as⟩, fun n named => absurd named List.not_mem_nil⟩

theorem abandonTransaction_marks (exact_ : w.Exact) (idle : Idle ctx w hashTx)
    (ended : abandonTransaction ctx hashTx w = .ok w') :
    Marks CWalletTx.ABANDON_HASH w (fun hash => Dependents w (Waiting ctx w) hashTx hash ∧ Waiting ctx w hash) w' := by
  rw [abandonTransaction_loops ctx idle] at ended
  apply loop_marks _ _ exact_ ended
  · intro s marked hash s' next _ unmarked marks visited
    have lookup := marks.others hash unmarked
    unfold visitAbandoned at visited
    rw [lookup] at visited
    cases found : w.mapWallet.lookup hash with
    | none =>
      rw [found] at visited
      exact nomatch visited
    | some wtx =>
      rw [found] at visited
      dsimp only at visited
      split at visited
      · exact nomatch visited
      · split at visited
        · next waiting =>
          split at visited
          · exact nomatch visited
          · cases visited
            exact Or.inl ⟨⟨wtx, found, waiting.1, by simpa using waiting.2⟩, rfl, rfl⟩
        · next notWaiting =>
          cases visited
          refine Or.inr ⟨?_, rfl, rfl⟩
          rintro ⟨other, found', depth, notAbandoned⟩
          rw [found] at found'
          cases found'
          exact notWaiting ⟨depth, by simp [notAbandoned]⟩
  · rintro hash ⟨wtx, found, _⟩
    exact ⟨wtx, found⟩

/-- Over an exact index a conflict and an abandonment mark exactly the dependent transactions. -/
theorem dependents_marked_exactly (ctx : WalletContext) (exact_ : w.Exact) :
    (∀ hashBlock pindex hashTx, ctx.mapBlockIndex.lookup hashBlock = some pindex → ctx.chainActive.contains pindex = true →
      (w.mapWallet.lookup hashTx).isSome →
        ∃ w', markConflicted ctx hashBlock hashTx w = .ok w' ∧ Marks hashBlock w (fun hash =>
          Dependents w (Shallower ctx (-ctx.chainActive.depthOf pindex) w) hashTx hash ∧
            Shallower ctx (-ctx.chainActive.depthOf pindex) w hash) w') ∧
    ∀ hashTx, Idle ctx w hashTx →
      (∀ w', abandonTransaction ctx hashTx w = .ok w' → Marks CWalletTx.ABANDON_HASH w (fun hash =>
        Dependents w (Waiting ctx w) hashTx hash ∧ Waiting ctx w hash) w') ∧
      (NoneAhead ctx w → ∃ w', abandonTransaction ctx hashTx w = .ok w') :=
  ⟨fun _ _ _ known active present => markConflicted_marks ctx exact_ known active present,
    fun _ idle => ⟨fun _ ended => abandonTransaction_marks ctx exact_ idle ended, fun ahead => abandonTransaction_ends ctx exact_ ahead idle⟩⟩

def spendingPayment : CWalletTx := { tx := { hash := 8, vin := [{ prevout := ⟨7, 0⟩ }], vout := [] } }

def twoPayments : CWallet where
  mapWallet := ((∅ : StdMap uint256 CWalletTx).insert 7 (payment 7)).insert 8 spendingPayment
  mapTxSpends := [(⟨5, 0⟩, 7), (⟨7, 0⟩, 8)]

def oneBlockNode : WalletContext :=
  { bareNode with
    mapBlockIndex := (∅ : StdMap uint256 CBlockIndex).insert 0x10 { hash := 0x10, nHeight := 0 }
    chainActive := ⟨[{ hash := 0x10, nHeight := 0 }], by
      intro nHeight pindex at_
      obtain ⟨inside, rfl⟩ := List.getElem?_eq_some_iff.mp at_
      obtain rfl : nHeight = 0 := by simpa using inside
      rfl⟩ }

theorem lookup_twoPayments : twoPayments.mapWallet.lookup hash =
    if hash = 8 then some spendingPayment else if hash = 7 then some (payment 7) else none := by
  unfold twoPayments
  rw [StdMap.lookup_insert_ite, StdMap.lookup_insert_ite]
  rfl

theorem twoPayments_exact : twoPayments.Exact := by
  intro outpoint hash
  have pairs : (outpoint, hash) ∈ twoPayments.mapTxSpends ↔ outpoint = ⟨5, 0⟩ ∧ hash = 7 ∨ outpoint = ⟨7, 0⟩ ∧ hash = 8 := by
    simp [twoPayments]
  rw [pairs, lookup_twoPayments]
  have first : spends (payment 7) = [⟨5, 0⟩] := by decide
  have second : spends spendingPayment = [⟨7, 0⟩] := by decide
  constructor
  · rintro (⟨rfl, rfl⟩ | ⟨rfl, rfl⟩)
    · exact ⟨payment 7, rfl, by decide⟩
    · exact ⟨spendingPayment, rfl, by decide⟩
  · rintro ⟨wtx, found, spent⟩
    by_cases is8 : hash = 8
    · rw [if_pos is8] at found
      cases found
      rw [second] at spent
      exact Or.inr ⟨List.mem_singleton.mp spent, is8⟩
    · rw [if_neg is8] at found
      by_cases is7 : hash = 7
      · rw [if_pos is7] at found
        cases found
        rw [first] at spent
        exact Or.inl ⟨List.mem_singleton.mp spent, is7⟩
      · rw [if_neg is7] at found
        exact nomatch found

theorem twoPayments_noneAhead : NoneAhead oneBlockNode twoPayments := by
  intro parent wtx hash spender _ _ _ _ found
  rw [lookup_twoPayments] at found
  by_cases is8 : hash = 8
  · rw [if_pos is8] at found
    cases found
    decide
  · rw [if_neg is8] at found
    by_cases is7 : hash = 7
    · rw [if_pos is7] at found
      cases found
      decide
    · rw [if_neg is7] at found
      exact nomatch found

theorem both_payments_marked :
    (∃ w', markConflicted oneBlockNode 0x10 7 twoPayments = .ok w' ∧
      w'.mapWallet.lookup 8 = some { spendingPayment with nIndex := -1, hashBlock := 0x10 }) ∧
    ∃ w', abandonTransaction oneBlockNode 7 twoPayments = .ok w' ∧
      w'.mapWallet.lookup 8 = some { spendingPayment with nIndex := -1, hashBlock := CWalletTx.ABANDON_HASH } := by
  obtain ⟨conflicts, abandons⟩ := dependents_marked_exactly oneBlockNode twoPayments_exact
  have parent : twoPayments.mapWallet.lookup 7 = some (payment 7) := by rw [lookup_twoPayments]; rfl
  have child : twoPayments.mapWallet.lookup 8 = some spendingPayment := by rw [lookup_twoPayments]; rfl
  have spends : twoPayments.SpendsFrom 7 8 := ⟨spendingPayment, ⟨7, 0⟩, child, by decide, rfl⟩
  constructor
  · obtain ⟨w', done, marks⟩ := conflicts 0x10 { hash := 0x10, nHeight := 0 } 7 rfl rfl (by rw [parent]; rfl)
    exact ⟨w', done, marks.changed 8 spendingPayment child
      ⟨Worklist.Touched.start.next ⟨_, parent, by decide⟩ spends, _, child, by decide⟩⟩
  · obtain ⟨exactly, ends⟩ := abandons 7 ⟨_, parent, by decide, rfl⟩
    obtain ⟨w', done⟩ := ends twoPayments_noneAhead
    exact ⟨w', done, (exactly w' done).changed 8 spendingPayment child
      ⟨Worklist.Touched.start.next ⟨_, parent, by decide, rfl⟩ spends, _, child, by decide, rfl⟩⟩

end CWallet

end SchillingCoin
