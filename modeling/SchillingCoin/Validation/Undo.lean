import SchillingCoin.Validation.Accepted

/-!
Disconnecting a block against connecting it. The changes of the coins view are flattened into single
spends and creations, which are undone from the last one back.
-/

namespace SchillingCoin

open Checked (refuse)

inductive CoinStep where
  | spent (out : COutPoint) (undo : CTxInUndo)
  | created (tx : CTransaction)

namespace CoinStep

def Mature (maturity nHeight : Nat) (c : CCoins) : Prop :=
  (c.fCoinBase || c.fCoinStake) = true → (nHeight : Int) - c.nHeight ≥ maturity

inductive Forward (maturity nHeight : Nat) : CoinsView → List CoinStep → CoinsView → Prop
  | done (v : CoinsView) : Forward maturity nHeight v [] v
  | spent {v v' w : CoinsView} {out : COutPoint} {undo : CTxInUndo} {rest : List CoinStep}
      (spend : v.spend out = some (v', undo)) (mature : Mature maturity nHeight (v.coinsAt out.hash))
      (after : Forward maturity nHeight v' rest w) : Forward maturity nHeight v (.spent out undo :: rest) w
  | created {v w : CoinsView} {tx : CTransaction} {rest : List CoinStep}
      (pruned : (v.coinsAt tx.hash).isPruned = true) (nonneg : ∀ o ∈ tx.vout, 0 ≤ o.nValue)
      (after : Forward maturity nHeight (v.addOutputs tx nHeight) rest w) :
      Forward maturity nHeight v (.created tx :: rest) w

variable {maturity nHeight : Nat} {v w : CoinsView} {c c' : CCoins} {txid : uint256} {out : COutPoint}
  {st : Bool × CoinsView} {steps : List CoinStep} {tx : CTransaction}
  {txs : List (CTransaction × CTxUndo)}

theorem Forward.append (left : Forward maturity nHeight u first v) (right : Forward maturity nHeight v second w) :
    Forward maturity nHeight u (first ++ second) w := by
  induction left with
  | done v => exact right
  | spent spend mature _ ih => exact .spent spend mature (ih right)
  | created pruned nonneg _ ih => exact .created pruned nonneg (ih right)

def undo (nHeight : Nat) (step : CoinStep) (st : Bool × CoinsView) : Bool × CoinsView :=
  match step with
  | .spent out record => applyTxInUndo st out record
  | .created tx => removeOutputs nHeight st tx

def undoAll (nHeight : Nat) (steps : List CoinStep) (st : Bool × CoinsView) : Bool × CoinsView :=
  steps.foldr (undo nHeight) st

def spentOutpoints (steps : List CoinStep) : List COutPoint :=
  steps.filterMap fun
    | .spent out _ => some out
    | .created _ => none

def Emptied (c : CCoins) (txid : uint256) (spent : List COutPoint) : Prop :=
  ∀ n, (c.outputAt n).isNull = false → ⟨txid, n⟩ ∈ spent

/-- What is left of an entry after its spends are undone: the coinstake mark is lost once the entry
was emptied. -/
def Restored (c w : CCoins) (txid : uint256) (spent : List COutPoint) : Prop :=
  (Emptied c txid spent → w = { c with fCoinStake := false }) ∧ (¬Emptied c txid spent → w = c)

structure OutputsUndone (v : CoinsView) (st : Bool × CoinsView) : Prop where
  clean : st.2.Clean
  outputs : ∀ t, (st.2.coinsAt t).vout = (v.coinsAt t).vout

structure Undone (v : CoinsView) (steps : List CoinStep) (st : Bool × CoinsView) : Prop extends OutputsUndone v st where
  restored : st.1 = true → ∀ t, (v.coinsAt t).isPruned = false →
    Restored (v.coinsAt t) (st.2.coinsAt t) t (spentOutpoints steps)
  flag : st.1 = true ↔ ∀ t, (v.coinsAt t).isPruned = false → Emptied (v.coinsAt t) t (spentOutpoints steps) →
    (v.coinsAt t).nHeight ≠ 0

theorem not_emptied_nil (live : c.isPruned = false) : ¬Emptied c txid [] := by
  intro emptied
  have none : ∀ n, (c.outputAt n).isNull = true := fun n => by
    by_contra unspent
    exact absurd (emptied n (Bool.eq_false_iff.mpr unspent)) (by simp)
  rw [CCoins.isPruned_iff_outputAt.mpr none] at live
  cases live

theorem emptied_of_pruned {undo : CTxInUndo} (spent : CCoins.Spent c out.n c' undo)
    (pruned : c'.isPruned = true) (rest : List COutPoint) : Emptied c out.hash (out :: rest) := by
  intro n unspent
  by_cases same : n = out.n
  · subst same
    exact List.mem_cons_self
  · have null := CCoins.isPruned_iff_outputAt.mp pruned n
    rw [spent.outputs n, if_neg same, unspent] at null
    cases null

theorem emptied_cons {undo : CTxInUndo} (spent : CCoins.Spent c out.n c' undo) (rest : List COutPoint) :
    Emptied c out.hash (out :: rest) ↔ Emptied c' out.hash rest := by
  constructor
  · intro emptied n unspent
    rw [spent.outputs n] at unspent
    split at unspent
    · cases unspent
    · rename_i other
      rcases List.mem_cons.mp (emptied n unspent) with same | mem
      · exact absurd (congrArg COutPoint.n same) other
      · exact mem
  · intro emptied n unspent
    by_cases same : n = out.n
    · subst same
      exact List.mem_cons_self
    · exact List.mem_cons_of_mem _ (emptied n (by rw [spent.outputs n, if_neg same]; exact unspent))

theorem emptied_other (other : txid ≠ out.hash) (rest : List COutPoint) :
    Emptied c txid (out :: rest) ↔ Emptied c txid rest := by
  constructor
  · intro emptied n unspent
    rcases List.mem_cons.mp (emptied n unspent) with same | mem
    · exact absurd (congrArg COutPoint.hash same) other
    · exact mem
  · intro emptied n unspent
    exact List.mem_cons_of_mem _ (emptied n unspent)

theorem restore_vout {w : CCoins} {undo : CTxInUndo} (clean : c.Clean) (spent : CCoins.Spent c n c' undo) (wclean : w.Clean)
    (same : ∀ k, w.outputAt k = c'.outputAt k) :
    ((Trimmed.grow .null (n + 1) w.vout).set n undo.txout).rdropWhile CTxOut.isNull = c.vout := by
  have inside : n < (Trimmed.grow CTxOut.null (n + 1) w.vout).length := by
    rw [Trimmed.length_grow]
    omega
  have canonical : Trimmed.Canonical CTxOut.isNull CTxOut.null
      ((Trimmed.grow .null (n + 1) w.vout).set n undo.txout) := by
    refine Trimmed.canonical_set (Trimmed.canonical_grow wclean.canonical _) _ fun null => ?_
    rw [spent.txout, spent.unspent] at null
    cases null
  refine Trimmed.ext CTxOut.isNull_null (Trimmed.isTrim_rdropWhile _ _) clean.trim fun k => ?_
  rw [Trimmed.getD_rdropWhile canonical, Trimmed.getD_set inside, Trimmed.getD_grow]
  split
  · rename_i at_n
    rw [at_n]
    exact spent.txout
  · rename_i other
    have := (same k).trans (spent.outputs k)
    rw [if_neg other] at this
    exact this

/-- The entry that an undone spend leaves, from the entry `c` before the spend and `w` before the undo. -/
def putBack (c c' w : CCoins) : CCoins :=
  if c'.isPruned = true ∧ c.nHeight ≠ 0 then { c with fCoinStake := false } else { w with vout := c.vout }

theorem putBack_vout (c c' w : CCoins) : (putBack c c' w).vout = c.vout := by
  unfold putBack
  split <;> rfl

theorem applyTxInUndo_spent {undo : CTxInUndo} (clean : c.Clean) (spent : CCoins.Spent c out.n c' undo)
    (wclean : (st.2.coinsAt out.hash).Clean) (same : (st.2.coinsAt out.hash).vout = c'.vout) :
    ((applyTxInUndo st out undo).1 = true ↔ st.1 = true ∧ (c'.isPruned = true → c.nHeight ≠ 0)) ∧
    ∀ t, (applyTxInUndo st out undo).2.coinsAt t =
      if t = out.hash then putBack c c' (st.2.coinsAt out.hash) else st.2.coinsAt t := by
  have outputs : ∀ k, (st.2.coinsAt out.hash).outputAt k = c'.outputAt k := fun k => by
    rw [CCoins.outputAt, same, CCoins.outputAt]
  have wpruned : (st.2.coinsAt out.hash).isPruned = c'.isPruned := CCoins.isPruned_congr same
  have gone : c'.outputAt out.n = .null := by rw [spent.outputs, if_pos rfl]
  -- The entry the output is put back into has the outputs of `c'`.
  have restored (d : CCoins) (dclean : d.Clean) (doutputs : ∀ k, d.outputAt k = c'.outputAt k) :
      CCoins.cleanup { d with vout := (Trimmed.grow .null (out.n + 1) d.vout).set out.n undo.txout } =
        { d with vout := c.vout } := by
    rw [CCoins.cleanup, restore_vout clean spent dclean doutputs]
  have unavailable (d : CCoins) (doutputs : ∀ k, d.outputAt k = c'.outputAt k) : d.isAvailable out.n = false :=
    CCoins.isAvailable_of_null (by rw [doutputs, gone]; rfl)
  cases pruned : c'.isPruned with
  | false =>
    have record := spent.notLast pruned
    refine ⟨?_, fun t => ?_⟩
    · simp only [applyTxInUndo, record, ne_eq, not_true_eq_false, if_false, wpruned, pruned, Bool.not_false,
        unavailable _ outputs, Bool.and_true, reduceCtorEq, false_implies, and_true]
    · simp only [applyTxInUndo, CoinsView.coinsAt_modifyCoins]
      split
      · have height : ¬undo.nHeight ≠ 0 := by rw [record]; simp
        rw [if_neg height, restored _ wclean outputs, putBack, if_neg (by simp [pruned])]
      · rfl
  | true =>
    have record := spent.last pruned
    have noOutputs : ∀ k, ({ fCoinBase := undo.fCoinBase, nHeight := undo.nHeight, nVersion := undo.nVersion } : CCoins).outputAt k =
        c'.outputAt k := fun k => by
      rw [CCoins.outputAt_null spent.clean (CCoins.isPruned_iff_outputAt.mp pruned k)]
      rfl
    have blank : ({ fCoinBase := undo.fCoinBase, nHeight := undo.nHeight, nVersion := undo.nVersion } : CCoins).Clean :=
      CCoins.clean_empty.of_vout rfl
    have height : undo.nHeight = c.nHeight := by rw [record]
    refine ⟨?_, fun t => ?_⟩
    · simp only [applyTxInUndo, height, wpruned, pruned, Bool.not_true, true_implies]
      by_cases zero : c.nHeight = 0
      · simp [zero]
      · simp only [zero, ne_eq, not_false_eq_true, if_true, Bool.and_true, and_true]
        rw [← height, unavailable _ noOutputs]
        simp
    · simp only [applyTxInUndo, CoinsView.coinsAt_modifyCoins]
      split
      · by_cases zero : c.nHeight = 0
        · rw [if_neg (by simp [height, zero]), restored _ wclean outputs, putBack, if_neg (by simp [zero])]
        · rw [if_pos (by simp [height, zero]), restored _ blank noOutputs, putBack,
            if_pos ⟨pruned, zero⟩, record]
      · rfl

theorem undo_spent_outputs (clean : v.Clean) (spend : v.spend out = some (v', record)) (later : OutputsUndone v' st) :
    OutputsUndone v (applyTxInUndo st out record) := by
  obtain ⟨_, spent, others⟩ := CoinsView.spend_coinsAt clean spend
  obtain ⟨_, entries⟩ := applyTxInUndo_spent (clean out.hash) spent (later.clean out.hash) (later.outputs out.hash)
  refine ⟨fun t => ?_, fun t => ?_⟩
  · rw [entries t]
    split
    · exact (clean out.hash).of_vout (putBack_vout _ _ _)
    · exact later.clean t
  · rw [entries t]
    split
    · rename_i same
      rw [same]
      exact putBack_vout _ _ _
    · rename_i other
      rw [later.outputs t, others t other]

theorem undo_spent (clean : v.Clean) (spend : v.spend out = some (v', record)) (later : Undone v' rest st) :
    Undone v (.spent out record :: rest) (applyTxInUndo st out record) := by
  obtain ⟨_, spent, others⟩ := CoinsView.spend_coinsAt clean spend
  obtain ⟨flag, entries⟩ := applyTxInUndo_spent (clean out.hash) spent (later.clean out.hash) (later.outputs out.hash)
  have unspent : (v.coinsAt out.hash).isPruned = false := by
    refine Bool.eq_false_iff.mpr fun pruned => ?_
    have null := CCoins.isPruned_iff_outputAt.mp pruned out.n
    rw [spent.unspent] at null
    cases null
  have spentList : spentOutpoints (.spent out record :: rest) = out :: spentOutpoints rest := rfl
  refine ⟨undo_spent_outputs clean spend later.toOutputsUndone, fun good t live => ?_, ?_⟩
  · obtain ⟨before, height⟩ := flag.mp good
    rw [entries t, spentList]
    by_cases same : t = out.hash
    · subst same
      rw [if_pos rfl]
      cases pruned : (v'.coinsAt out.hash).isPruned with
      | true =>
        have emptied := emptied_of_pruned spent pruned (spentOutpoints rest)
        rw [putBack, if_pos ⟨pruned, height pruned⟩]
        exact ⟨fun _ => rfl, fun left => absurd emptied left⟩
      | false =>
        obtain ⟨lost, kept⟩ := later.restored before out.hash pruned
        rw [putBack, if_neg (by simp [pruned])]
        constructor
        · intro emptied
          rw [lost ((emptied_cons spent _).mp emptied), spent.fields]
        · intro left
          rw [kept fun emptied => left ((emptied_cons spent _).mpr emptied), spent.fields]
    · rw [if_neg same]
      rw [← others t same] at live ⊢
      obtain ⟨lost, kept⟩ := later.restored before t live
      exact ⟨fun emptied => lost ((emptied_other same _).mp emptied),
        fun left => kept fun emptied => left ((emptied_other same _).mpr emptied)⟩
  · rw [flag, later.flag, spentList]
    constructor
    · rintro ⟨heights, height⟩ t live emptied
      by_cases same : t = out.hash
      · subst same
        cases pruned : (v'.coinsAt out.hash).isPruned with
        | true => exact height pruned
        | false =>
          have := heights out.hash pruned ((emptied_cons spent _).mp emptied)
          rw [spent.fields] at this
          exact this
      · rw [← others t same] at live emptied ⊢
        exact heights t live ((emptied_other same _).mp emptied)
    · intro heights
      refine ⟨fun t live emptied => ?_, fun pruned => heights _ unspent (emptied_of_pruned spent pruned _)⟩
      by_cases same : t = out.hash
      · subst same
        have := heights out.hash unspent ((emptied_cons spent _).mpr emptied)
        rw [spent.fields]
        exact this
      · rw [others t same] at live emptied ⊢
        exact heights t live ((emptied_other same _).mpr emptied)

theorem Restored.refl_of_not {w : CCoins} {spent : List COutPoint} (h : Restored c w txid spent)
    (plain : Emptied c txid spent → c.fCoinStake = false) : w = c := by
  obtain ⟨lost, kept⟩ := h
  by_cases emptied : Emptied c txid spent
  · rw [lost emptied, ← plain emptied]
  · exact kept emptied

theorem created_plain (pos : 0 < maturity) (forward : Forward maturity nHeight v steps w) (clean : v.Clean)
    (live : (v.coinsAt txid).isPruned = false) (height : (v.coinsAt txid).nHeight = nHeight)
    (emptied : Emptied (v.coinsAt txid) txid (spentOutpoints steps)) :
    (v.coinsAt txid).fCoinStake = false := by
  induction forward with
  | done v => exact absurd emptied (not_emptied_nil live)
  | @spent v v' w out undo rest spend mature after ih =>
    obtain ⟨_, _, others⟩ := CoinsView.spend_coinsAt clean spend
    by_cases same : txid = out.hash
    · subst same
      refine Bool.eq_false_iff.mpr fun stake => ?_
      have old := mature (by simp [stake])
      rw [height] at old
      omega
    · rw [← others txid same] at live height ⊢
      refine ih (CoinsView.spend_clean clean spend) live height ?_
      rw [others txid same]
      exact (emptied_other same _).mp emptied
  | @created v w tx rest pruned nonneg after ih =>
    have entry := CoinsView.coinsAt_addOutputs nonneg v nHeight
    by_cases same : txid = tx.hash
    · rw [same, pruned] at live
      cases live
    · have kept : (v.addOutputs tx nHeight).coinsAt txid = v.coinsAt txid := by rw [entry, if_neg same]
      rw [← kept] at live height ⊢
      exact ih (CoinsView.addOutputs_clean nonneg clean nHeight) live height (kept.symm ▸ emptied)

theorem removeOutputs_coinsAt (nHeight : Nat) (st : Bool × CoinsView) (tx : CTransaction) (t : uint256) :
    (removeOutputs nHeight st tx).2.coinsAt t = if t = tx.hash then {} else st.2.coinsAt t := by
  rw [removeOutputs, CoinsView.coinsAt_modifyCoins]
  rfl

theorem undo_created_outputs (clean : v.Clean) (pruned : (v.coinsAt tx.hash).isPruned = true)
    (nonneg : ∀ o ∈ tx.vout, 0 ≤ o.nValue) (later : OutputsUndone (v.addOutputs tx nHeight) st) :
    OutputsUndone v (removeOutputs nHeight st tx) := by
  refine ⟨fun t => ?_, fun t => ?_⟩
  · rw [removeOutputs_coinsAt]
    split
    · exact CCoins.clean_empty
    · exact later.clean t
  · rw [removeOutputs_coinsAt]
    split
    · rename_i same
      rw [same, CCoins.vout_of_isPruned (clean tx.hash) pruned]
    · rename_i other
      rw [later.outputs t, CoinsView.coinsAt_addOutputs nonneg v nHeight, if_neg other]

theorem undo_created (pos : 0 < maturity) (height : nHeight ≠ 0) (clean : v.Clean)
    (pruned : (v.coinsAt tx.hash).isPruned = true) (nonneg : ∀ o ∈ tx.vout, 0 ≤ o.nValue)
    (after : Forward maturity nHeight (v.addOutputs tx nHeight) rest w) (later : Undone (v.addOutputs tx nHeight) rest st) :
    Undone v (.created tx :: rest) (removeOutputs nHeight st tx) := by
  have entry := CoinsView.coinsAt_addOutputs nonneg v nHeight
  have here : (v.addOutputs tx nHeight).coinsAt tx.hash = CCoins.fromTx tx nHeight := by rw [entry, if_pos rfl]
  have others : ∀ t, t ≠ tx.hash → (v.addOutputs tx nHeight).coinsAt t = v.coinsAt t := fun t other => by
    rw [entry, if_neg other]
  have clean' := CoinsView.addOutputs_clean nonneg clean nHeight
  have fresh : (CCoins.fromTx tx nHeight).nHeight = nHeight := rfl
  -- The outputs found are those of the block: what was emptied and lost its mark was no coinstake.
  have matched : st.1 = true → (removeOutputs nHeight st tx).1 = true := by
    intro good
    have vout := later.outputs tx.hash
    rw [here] at vout
    have spendable : (st.2.coinsAt tx.hash).Spendable := fun o mem =>
      CCoins.fromTx_spendable tx nHeight o (vout ▸ mem)
    have cleared := CCoins.clearUnspendable_of_spendable (later.clean tx.hash).trim spendable
    simp only [removeOutputs, cleared, good, Bool.true_and]
    cases live : (CCoins.fromTx tx nHeight).isPruned with
    | true =>
      refine CCoins.eqv_iff.mpr (Or.inl ⟨?_, live⟩)
      rw [← live]
      split <;> exact CCoins.isPruned_congr vout
    | false =>
      have restored := later.restored good tx.hash (here ▸ live)
      have same : st.2.coinsAt tx.hash = CCoins.fromTx tx nHeight := by
        rw [← here]
        refine restored.refl_of_not fun emptied => ?_
        exact created_plain pos after clean' (here ▸ live) (here ▸ fresh) emptied
      rw [same]
      split <;> exact CCoins.eqv_refl _
  have flag : (removeOutputs nHeight st tx).1 = true ↔ st.1 = true :=
    ⟨fun both => (Bool.and_eq_true_iff.mp both).1, matched⟩
  have spentList : spentOutpoints (.created tx :: rest) = spentOutpoints rest := rfl
  refine ⟨undo_created_outputs clean pruned nonneg later.toOutputsUndone, fun good t live => ?_, ?_⟩
  · have other : t ≠ tx.hash := by
      rintro rfl
      rw [pruned] at live
      cases live
    rw [removeOutputs_coinsAt, if_neg other, spentList]
    rw [← others t other] at live ⊢
    exact later.restored (flag.mp good) t live
  · rw [flag, later.flag, spentList]
    constructor
    · intro heights t live emptied
      have other : t ≠ tx.hash := by
        rintro rfl
        rw [pruned] at live
        cases live
      rw [← others t other] at live emptied ⊢
      exact heights t live emptied
    · intro heights t live emptied
      by_cases same : t = tx.hash
      · rw [same, here, fresh]
        exact_mod_cast height
      · rw [others t same] at live emptied ⊢
        exact heights t live emptied

/-- Undoing gives the outputs back whatever else the entries have lost in the meantime. -/
theorem undoAll_outputs (forward : Forward maturity nHeight v steps w) (clean : v.Clean) (clean' : w'.Clean)
    (same : ∀ t, (w'.coinsAt t).vout = (w.coinsAt t).vout) : OutputsUndone v (undoAll nHeight steps (true, w')) := by
  induction forward with
  | done v => exact ⟨clean', same⟩
  | @spent v v' w out undo rest spend mature after ih =>
    exact undo_spent_outputs clean spend (ih (CoinsView.spend_clean clean spend) same)
  | @created v w tx rest pruned nonneg after ih =>
    exact undo_created_outputs clean pruned nonneg (ih (CoinsView.addOutputs_clean nonneg clean nHeight) same)

theorem vout_of_eqv (clean : c.Clean) (clean' : d.Clean) (same : c.eqv d = true) : c.vout = d.vout := by
  rcases CCoins.eqv_iff.mp same with ⟨pruned, pruned'⟩ | rfl
  · rw [CCoins.vout_of_isPruned clean pruned, CCoins.vout_of_isPruned clean' pruned']
  · rfl

theorem eq_of_eqv (same : c.eqv d = true) (live : d.isPruned = false) : c = d := by
  rcases CCoins.eqv_iff.mp same with ⟨_, pruned⟩ | equal
  · rw [live] at pruned
    cases pruned
  · exact equal

theorem undoAll_undone (pos : 0 < maturity) (height : nHeight ≠ 0) (forward : Forward maturity nHeight v steps w)
    (clean : v.Clean) (clean' : w'.Clean) (same : ∀ t, (w'.coinsAt t).eqv (w.coinsAt t) = true) :
    Undone v steps (undoAll nHeight steps (true, w')) := by
  induction forward with
  | done v =>
    exact ⟨⟨clean', fun t => vout_of_eqv (clean' t) (clean t) (same t)⟩,
      fun _ t live => ⟨fun emptied => absurd emptied (not_emptied_nil live), fun _ => eq_of_eqv (same t) live⟩,
      fun _ t live emptied => absurd emptied (not_emptied_nil live), fun _ => rfl⟩
  | @spent v v' w out undo rest spend mature after ih =>
    exact undo_spent clean spend (ih (CoinsView.spend_clean clean spend) same)
  | @created v w tx rest pruned nonneg after ih =>
    exact undo_created pos height clean pruned nonneg after (ih (CoinsView.addOutputs_clean nonneg clean nHeight) same)

/-- The undo record of the last spend of an emptied entry has its coinstake mark. -/
theorem Forward.record (forward : Forward maturity nHeight v steps w) (clean : v.Clean) (live : (v.coinsAt t).isPruned = false)
    (emptied : Emptied (v.coinsAt t) t (spentOutpoints steps)) :
    ∃ out record, .spent out record ∈ steps ∧ record.fCoinStake = (v.coinsAt t).fCoinStake := by
  induction forward with
  | done v => exact absurd emptied (not_emptied_nil live)
  | @spent v v' w out undo rest spend mature after ih =>
    obtain ⟨_, spent, others⟩ := CoinsView.spend_coinsAt clean spend
    by_cases same : t = out.hash
    · subst same
      cases pruned : (v'.coinsAt out.hash).isPruned with
      | true => exact ⟨out, undo, List.mem_cons_self, by rw [spent.last pruned]⟩
      | false =>
        obtain ⟨o, record, member, mark⟩ := ih (CoinsView.spend_clean clean spend) pruned ((emptied_cons spent _).mp emptied)
        exact ⟨o, record, List.mem_cons_of_mem _ member, by rw [mark, spent.fields]⟩
    · rw [← others t same] at live emptied ⊢
      obtain ⟨o, record, found⟩ := ih (CoinsView.spend_clean clean spend) live ((emptied_other same _).mp emptied)
      exact ⟨o, record, List.mem_cons_of_mem _ found.1, found.2⟩
  | @created v w tx rest pruned nonneg after ih =>
    have other : t ≠ tx.hash := by
      rintro rfl
      rw [pruned] at live
      cases live
    have kept : (v.addOutputs tx nHeight).coinsAt t = v.coinsAt t := by
      rw [CoinsView.coinsAt_addOutputs nonneg v nHeight, if_neg other]
    rw [← kept] at live emptied ⊢
    obtain ⟨o, record, found⟩ := ih (CoinsView.addOutputs_clean nonneg clean nHeight) live emptied
    exact ⟨o, record, List.mem_cons_of_mem _ found.1, found.2⟩

def ofTx (tx : CTransaction) (txundo : CTxUndo) : List CoinStep :=
  (tx.vin.zip txundo).map (fun i => .spent i.1.prevout i.2) ++ [.created tx]

def ofTxs (txs : List (CTransaction × CTxUndo)) : List CoinStep := txs.flatMap fun p => ofTx p.1 p.2

theorem undoAll_append (nHeight : Nat) (first second : List CoinStep) (st : Bool × CoinsView) :
    undoAll nHeight (first ++ second) st = undoAll nHeight first (undoAll nHeight second st) := by
  simp [undoAll]

theorem spendInputs_forward (clean : v.Clean) (spend : v.spendInputs vin = some (w, undos))
    (mature : ∀ i ∈ vin, Mature maturity nHeight (v.coinsAt i.prevout.hash)) :
    Forward maturity nHeight v ((vin.zip undos).map fun i => .spent i.1.prevout i.2) w ∧
      undos.length = vin.length ∧ w.hashBlock = v.hashBlock ∧
      ∀ t, (∀ i ∈ vin, i.prevout.hash ≠ t) → w.coinsAt t = v.coinsAt t := by
  induction vin generalizing v undos with
  | nil =>
    obtain ⟨rfl, rfl⟩ := Prod.mk.inj (Option.some.inj spend)
    exact ⟨.done _, rfl, rfl, fun _ _ => rfl⟩
  | cons txin rest ih =>
    simp only [CoinsView.spendInputs, Option.bind_eq_bind, Option.bind_eq_some_iff] at spend
    obtain ⟨⟨v', undo⟩, first, ⟨w', undos'⟩, second, done⟩ := spend
    obtain ⟨rfl, rfl⟩ := Prod.mk.inj (Option.some.inj done)
    obtain ⟨best, spent, others⟩ := CoinsView.spend_coinsAt clean first
    have keeps : ∀ i ∈ rest, Mature maturity nHeight (v'.coinsAt i.prevout.hash) := by
      intro i mem
      have before := mature i (List.mem_cons_of_mem _ mem)
      by_cases same : i.prevout.hash = txin.prevout.hash
      · rw [same] at before ⊢
        rw [spent.fields]
        exact before
      · rw [others _ same]
        exact before
    obtain ⟨forward, length, best', rest_eq⟩ := ih (CoinsView.spend_clean clean first) second keeps
    refine ⟨.spent first (mature txin (by simp)) forward, by simp [length], best'.trans best, fun t away => ?_⟩
    rw [rest_eq t fun i mem => away i (List.mem_cons_of_mem _ mem), others t (away txin (by simp)).symm]

theorem TxConnected.forward {st : ConnectState} (h : TxConnected ctx i st st' tx txundo) (clean : st.view.Clean)
    (indexed : ctx.chain.mapBlockIndex.lookup st.view.hashBlock = some pindexPrev)
    (height : ctx.nHeight = pindexPrev.nHeight + 1) :
    Forward ctx.chain.network.consensus.nCoinbaseMaturity ctx.nHeight st.view (ofTx tx txundo) st'.view ∧
      st'.view.hashBlock = st.view.hashBlock ∧
      (tx.spendsCoins = false → txundo = []) ∧ (tx.spendsCoins = true → txundo.length = tx.vin.length) := by
  obtain ⟨nValueOut, value, _⟩ := h.valueOut
  have nonneg := (getValueOut_spec value).1
  have update := h.update
  rw [CoinsView.updateCoins, ← CTransaction.spendsCoins] at update
  cases spends : tx.spendsCoins with
  | false =>
    simp only [spends, Bool.false_eq_true, if_false, Option.bind_eq_bind, Option.bind_some, Option.pure_def,
      Option.some.injEq, Prod.mk.injEq] at update
    obtain ⟨view, rfl⟩ := update
    rw [← view]
    refine ⟨?_, rfl, fun _ => rfl, fun other => absurd other (by simp)⟩
    simp only [ofTx, List.zip_nil_right, List.map_nil, List.nil_append]
    exact .created h.pruned nonneg (.done _)
  | true =>
    obtain ⟨base, noSpends⟩ := CTransaction.spendsCoins_iff.mp spends
    simp only [spends, if_true, Option.bind_eq_bind, Option.bind_eq_some_iff, Option.pure_def, Option.some.injEq,
      Prod.mk.injEq] at update
    obtain ⟨⟨mid, undos⟩, spent, view, rfl⟩ := update
    obtain ⟨available, _, _, checked, _⟩ := h.spends spends
    obtain ⟨_, prev, _, found, coins, _⟩ := checkInputs_ok (by simp [base, noSpends]) checked
    have same : prev = pindexPrev := Option.some.inj (found.symm.trans indexed)
    subst same
    have mature : ∀ i ∈ tx.vin, Mature ctx.chain.network.consensus.nCoinbaseMaturity ctx.nHeight
        (st.view.coinsAt i.prevout.hash) := by
      intro i mem flagged
      have old := (checkInputCoins_ok coins i mem).1 flagged
      rw [height]
      push_cast
      exact old
    obtain ⟨forward, length, best, others⟩ := spendInputs_forward clean spent mature
    -- An input of the transaction's own hash would spend an entry that is fully spent.
    have away : ∀ i ∈ tx.vin, i.prevout.hash ≠ tx.hash := by
      intro i mem own
      have spends := CTransaction.spendsCoins_iff.mpr ⟨base, noSpends⟩
      have unspent := CoinsView.available_of_haveInputs spends available _ (List.mem_map_of_mem mem)
      rw [CoinsView.isOutputAvailable_of_isPruned h.pruned own] at unspent
      cases unspent
    have pruned : (mid.coinsAt tx.hash).isPruned = true := by
      rw [others tx.hash away]
      exact h.pruned
    rw [← view]
    exact ⟨forward.append (.created pruned nonneg (.done _)), best, fun mint => absurd mint (by simp), fun _ => length⟩

theorem Forward.clean (forward : Forward maturity nHeight v steps w) (clean : v.Clean) : w.Clean := by
  induction forward with
  | done v => exact clean
  | spent spend _ _ ih => exact ih (CoinsView.spend_clean clean spend)
  | created _ nonneg _ ih => exact ih (CoinsView.addOutputs_clean nonneg clean nHeight)

def Matches (p : CTransaction × CTxUndo) : Prop :=
  (p.1.spendsCoins = false → p.2 = []) ∧ (p.1.spendsCoins = true → p.2.length = p.1.vin.length)

theorem connectTxs_forward {txs : List CTransaction} {st : ConnectState} (h : connectTxs ctx (i + 1) st txs = .ok st')
    (clean : st.view.Clean) (indexed : ctx.chain.mapBlockIndex.lookup st.view.hashBlock = some pindexPrev)
    (height : ctx.nHeight = pindexPrev.nHeight + 1) :
    ∃ undos, st'.vtxundo = st.vtxundo ++ undos ∧ undos.length = txs.length ∧
      Forward ctx.chain.network.consensus.nCoinbaseMaturity ctx.nHeight st.view (ofTxs (txs.zip undos)) st'.view ∧
      st'.view.hashBlock = st.view.hashBlock ∧ ∀ p ∈ txs.zip undos, Matches p := by
  induction txs generalizing i st with
  | nil =>
    obtain rfl := Except.ok.inj h
    exact ⟨[], by simp, rfl, .done _, rfl, by simp⟩
  | cons tx txs ih =>
    obtain ⟨mid, first, rest⟩ := Checked.bind_ok h
    obtain ⟨txundo, connected⟩ := connectTx_ok first
    obtain ⟨forward, best, none, spends⟩ := TxConnected.forward connected clean indexed height
    obtain ⟨undos, undo, length, later, best', matched⟩ := ih rest (forward.clean clean) (best.symm ▸ indexed)
    refine ⟨txundo :: undos, ?_, by simp [length], forward.append later, best'.trans best, ?_⟩
    · rw [undo, connected.undo, if_neg (by omega), List.append_assoc]
      rfl
    · intro p mem
      rw [List.zip_cons_cons] at mem
      rcases List.mem_cons.mp mem with rfl | mem
      · exact ⟨none, spends⟩
      · exact matched p mem

theorem disconnectTx_eq (matched : Matches (tx, txundo)) :
    disconnectTx nHeight st tx txundo = .ok (undoAll nHeight (ofTx tx txundo) st) := by
  rw [ofTx, undoAll_append, disconnectTx, ← CTransaction.spendsCoins]
  cases spends : tx.spendsCoins with
  | false =>
    have none := matched.1 spends
    simp only at none
    simp [none, undoAll, undo]
  | true =>
    have length := matched.2 spends
    simp only at length
    simp [length, undoAll, undo, List.foldr_map]

theorem disconnectTxs_eq (matched : ∀ p ∈ txs, Matches p) :
    disconnectTxs nHeight st txs = .ok (undoAll nHeight (ofTxs txs) st) := by
  induction txs with
  | nil => rfl
  | cons p txs ih =>
    rw [disconnectTxs, ih fun q mem => matched q (List.mem_cons_of_mem _ mem)]
    exact (disconnectTx_eq (matched p (by simp))).trans (congrArg Except.ok (undoAll_append nHeight _ _ _).symm)

theorem spentOutpoints_append (first second : List CoinStep) :
    spentOutpoints (first ++ second) = spentOutpoints first ++ spentOutpoints second := by
  simp [spentOutpoints]

theorem spentOutpoints_ofTx (matched : Matches p) :
    spentOutpoints (ofTx p.1 p.2) = if p.1.spendsCoins then p.1.prevouts else [] := by
  have outpoints (vin : List CTxIn) (undos : CTxUndo) (length : undos.length = vin.length) :
      spentOutpoints ((vin.zip undos).map fun i => .spent i.1.prevout i.2) = vin.map CTxIn.prevout := by
    induction vin generalizing undos with
    | nil => rfl
    | cons i vin ih =>
      cases undos with
      | nil => cases length
      | cons u undos => exact congrArg (i.prevout :: ·) (ih undos (by simpa using length))
  rw [ofTx, spentOutpoints_append]
  cases spends : p.1.spendsCoins with
  | false =>
    rw [matched.1 spends]
    simp [spentOutpoints]
  | true =>
    rw [outpoints _ _ (matched.2 spends)]
    simp [spentOutpoints, CTransaction.prevouts]

theorem spentOutpoints_ofTxs (matched : ∀ p ∈ txs, Matches p) :
    spentOutpoints (ofTxs txs) =
      (txs.map Prod.fst).flatMap fun tx => if tx.spendsCoins then tx.prevouts else [] := by
  induction txs with
  | nil => rfl
  | cons p txs ih =>
    rw [ofTxs, List.flatMap_cons, spentOutpoints_append, spentOutpoints_ofTx (matched p (by simp))]
    rw [← ofTxs, ih fun q mem => matched q (List.mem_cons_of_mem _ mem)]
    simp

theorem mem_ofTxs (member : step ∈ ofTxs txs) :
    ∃ p ∈ txs, (∃ out, ∃ record ∈ p.2, step = .spent out record) ∨ step = .created p.1 := by
  obtain ⟨p, listed, member⟩ := List.mem_flatMap.mp member
  refine ⟨p, listed, ?_⟩
  rcases List.mem_append.mp member with spend | creation
  · obtain ⟨i, zipped, rfl⟩ := List.mem_map.mp spend
    exact Or.inl ⟨i.1.prevout, i.2, (List.of_mem_zip zipped).2, rfl⟩
  · exact Or.inr (List.mem_singleton.mp creation)

end CoinStep

structure BlockPosition (s : ChainState) where
  pindex : CBlockIndex
  pprev : CBlockIndex
  indexed : s.mapBlockIndex.lookup pprev.hash = some pprev
  height : pindex.nHeight = pprev.nHeight + 1

/-- Disconnecting the block from the view `after` is clean and gives back the view `before`. -/
def ExactlyUndone (block : CBlock) (pindex pprev : CBlockIndex) (blockundo : List CTxUndo)
    (before after : CoinsView) : Prop :=
  ∃ w, disconnectBlock block pindex pprev blockundo after = .ok (true, w) ∧ w.hashBlock = pprev.hash ∧
    ∀ txid, (w.coinsAt txid).eqv (before.coinsAt txid) = true

theorem connected_forward {block : CBlock} {pos : BlockPosition s} (clean : view.Clean)
    (connected : BlockConnected s checks block pos.pindex pos.pprev view c st) :
    st.vtxundo.length + 1 = block.vtx.length ∧
    CoinStep.Forward s.network.consensus.nCoinbaseMaturity pos.pindex.nHeight view
      (CoinStep.ofTxs (block.vtx.zip ([] :: st.vtxundo))) st.view ∧
    ∀ p ∈ block.vtx.zip ([] :: st.vtxundo), CoinStep.Matches p := by
  obtain ⟨coinbase, rest, shape, base, _⟩ := checkBlockShape_ok (checkBlock_ok connected.checked).1
  have indexed : s.mapBlockIndex.lookup view.hashBlock = some pos.pprev := connected.best ▸ pos.indexed
  have transactions := connected.transactions
  rw [connectTransactions, shape] at transactions
  obtain ⟨mid, first, later⟩ := Checked.bind_ok transactions
  have noSpends : coinbase.spendsCoins = false := by simp [CTransaction.spendsCoins, base]
  obtain ⟨txundo, txConnected⟩ := connectTx_ok first
  obtain ⟨forward, best, none, _⟩ := CoinStep.TxConnected.forward txConnected clean indexed pos.height
  obtain ⟨undos, undo, length, forwardRest, _, matched⟩ :=
    CoinStep.connectTxs_forward later (forward.clean clean) (best.symm ▸ indexed) pos.height
  rw [none noSpends] at forward
  have recorded : st.vtxundo = undos := by
    rw [undo, txConnected.undo, if_pos rfl]
    rfl
  rw [recorded, shape, List.zip_cons_cons]
  refine ⟨by simp [length], forward.append forwardRest, fun p mem => ?_⟩
  rcases List.mem_cons.mp mem with rfl | mem
  · exact ⟨fun _ => rfl, fun spends => absurd (noSpends.symm.trans spends) (by simp)⟩
  · exact matched p mem

/-- The changes that an accepted block made to the coins, with their records in its undo data. -/
structure ConnectedSteps (s : ChainState) (block : CBlock) (pindex : CBlockIndex) (view after : CoinsView) (blockundo : List CTxUndo)
    (steps : List CoinStep) : Prop where
  outpoints : CoinStep.spentOutpoints steps = block.spentOutpoints
  forward : CoinStep.Forward s.network.consensus.nCoinbaseMaturity pindex.nHeight view steps after
  records : ∀ out record, .spent out record ∈ steps → ∃ txundo ∈ blockundo, record ∈ txundo
  creations : ∀ tx, .created tx ∈ steps → tx ∈ block.vtx
  height : pindex.nHeight ≠ 0

theorem disconnect_connected {pos : BlockPosition s} (clean : view.Clean)
    (accepted : connectBlock s checks block pos.pindex (some pos.pprev) view = .ok c) (produced : c.blockundo = some blockundo) :
    ∃ steps after, ConnectedSteps s block pos.pindex view after blockundo steps ∧ c.view = after.setBestBlock pos.pindex.hash ∧
      ∀ w : CoinsView, w.hashBlock = pos.pindex.hash → disconnectBlock block pos.pindex pos.pprev blockundo w =
        .ok ((CoinStep.undoAll pos.pindex.nHeight steps (true, w)).1,
          (CoinStep.undoAll pos.pindex.nHeight steps (true, w)).2.setBestBlock pos.pprev.hash) := by
  have other : block.hash ≠ s.hashGenesisBlock := fun genesis => by
    rw [(connectBlock_genesis genesis accepted).2.2.1] at produced
    cases produced
  obtain ⟨st, connected⟩ := connectBlock_ok other accepted
  obtain ⟨length, forward, matched⟩ := connected_forward clean connected
  obtain rfl : blockundo = st.vtxundo := Option.some.inj (produced.symm.trans connected.undo_eq)
  have names : (block.vtx.zip ([] :: st.vtxundo)).map Prod.fst = block.vtx :=
    List.map_fst_zip (by simp [← length])
  refine ⟨_, st.view, ⟨?_, forward, fun out record member => ?_, fun tx member => ?_, by rw [pos.height]; omega⟩,
    connected.view_eq, fun w best => ?_⟩
  · rw [CoinStep.spentOutpoints_ofTxs matched, names]
    rfl
  · obtain ⟨p, listed, ⟨out', record', recorded, same⟩ | same⟩ := CoinStep.mem_ofTxs member
    · cases same
      rcases List.mem_cons.mp (List.of_mem_zip listed).2 with none | stored
      · rw [none] at recorded
        cases recorded
      · exact ⟨p.2, stored, recorded⟩
    · cases same
  · obtain ⟨p, listed, ⟨out, record, _, same⟩ | same⟩ := CoinStep.mem_ofTxs member
    · cases same
    · cases same
      exact (List.of_mem_zip listed).1
  · rw [disconnectBlock, CoinStep.disconnectTxs_eq matched, refuse, if_neg (by simp [best]), refuse, if_neg (by simp [length])]
    rfl

/-- Disconnecting an accepted block gives back the view before it if and only if no entry that the
block empties is marked as a coinstake or stored without a height. -/
theorem disconnect_undoes_connect_iff (s : ChainState) (checks : Checks) (block : CBlock) (pos : BlockPosition s)
    (view : { v : CoinsView // v.Clean }) (c : Connected) (blockundo : List CTxUndo) (_free : block.ZerocoinFree)
    (accepted : connectBlock s checks block pos.pindex (some pos.pprev) view = .ok c)
    (produced : c.blockundo = some blockundo) :
    ExactlyUndone block pos.pindex pos.pprev blockundo view c.view ↔
      ∀ txid, (view.1.coinsAt txid).isPruned = false →
        CoinStep.Emptied (view.1.coinsAt txid) txid block.spentOutpoints →
        (view.1.coinsAt txid).fCoinStake = false ∧ (view.1.coinsAt txid).nHeight ≠ 0 := by
  obtain ⟨steps, after, changes, view_eq, disconnects⟩ := disconnect_connected view.2 accepted produced
  have result := disconnects c.view (by rw [view_eq]; rfl)
  have same : ∀ t, c.view.coinsAt t = after.coinsAt t := fun t => by
    rw [view_eq]
    rfl
  have undone : CoinStep.Undone view.1 steps (CoinStep.undoAll pos.pindex.nHeight steps (true, c.view)) :=
    CoinStep.undoAll_undone s.network.maturity_pos changes.height changes.forward view.2
      (fun t => same t ▸ changes.forward.clean view.2 t) fun t => same t ▸ CCoins.eqv_refl _
  generalize CoinStep.undoAll pos.pindex.nHeight steps (true, c.view) = st at result undone
  rw [← changes.outpoints]
  constructor
  · rintro ⟨w, undo, _, same⟩ txid live emptied
    obtain ⟨flag, rfl⟩ := Prod.mk.inj (Except.ok.inj (result.symm.trans undo))
    have height := undone.flag.mp flag txid live emptied
    have entry := (undone.restored flag txid live).1 emptied
    refine ⟨?_, height⟩
    rcases CCoins.eqv_iff.mp (same txid) with ⟨_, pruned⟩ | equal
    · rw [live] at pruned
      cases pruned
    · have here : st.2.coinsAt txid = view.1.coinsAt txid := equal
      rw [← here, entry]
  · intro plain
    have flag : st.1 = true := undone.flag.mpr fun t live emptied => (plain t live emptied).2
    refine ⟨_, flag ▸ result, rfl, fun txid => ?_⟩
    cases live : (view.1.coinsAt txid).isPruned with
    | true =>
      refine CCoins.eqv_iff.mpr (Or.inl ⟨?_, live⟩)
      rw [← live]
      exact CCoins.isPruned_congr (undone.outputs txid)
    | false =>
      have entry := (undone.restored flag txid live).refl_of_not fun emptied => (plain txid live emptied).1
      refine CCoins.eqv_iff.mpr (Or.inr ?_)
      exact entry

section Blocks

def positionAfter (nHeight : Nat) : BlockPosition (nodeAt nHeight) where
  pindex := { hash := 7, pprev := some (BitVec.ofNat 256 (10000 + nHeight)), nHeight := nHeight + 1 }
  pprev := { hash := BitVec.ofNat 256 (10000 + nHeight), nHeight }
  indexed := (StdMap.lookup_insert_ite _ _ _ _).trans (if_pos rfl)
  height := rfl

def minedView : { v : CoinsView // v.Clean } where
  val := ({ hashBlock := 10059 } : CoinsView).addOutputs (mintTx 1000 [payTo 5]) 5
  property := CoinsView.addOutputs_clean (by decide) (CoinsView.clean_empty _) 5

def miningBlock : CBlock :=
  { hash := 7, hashPrevBlock := 10059, vtx := [mintTx 2000 [payTo 32], spendTx 2001 [⟨1000, 0⟩] [payTo 4]] }

theorem mining_block_exactly_undone : ∃ c blockundo,
    connectBlock (nodeAt 59) passingChecks miningBlock (positionAfter 59).pindex (some (positionAfter 59).pprev) minedView =
      .ok c ∧ c.blockundo = some blockundo ∧
    ExactlyUndone miningBlock (positionAfter 59).pindex (positionAfter 59).pprev blockundo minedView c.view := by
  have accepted : ((connectBlock (nodeAt 59) passingChecks miningBlock (positionAfter 59).pindex
      (some (positionAfter 59).pprev) minedView).toOption.bind Connected.blockundo).isSome = true := by decide
  obtain ⟨blockundo, found⟩ := Option.isSome_iff_exists.mp accepted
  obtain ⟨c, connected, produced⟩ := Option.bind_eq_some_iff.mp found
  have ok := Checked.ok_of_toOption connected
  refine ⟨c, blockundo, ok, produced,
    (disconnect_undoes_connect_iff (nodeAt 59) passingChecks miningBlock (positionAfter 59) minedView c blockundo
      (by unfold CBlock.ZerocoinFree; decide) ok produced).mpr fun txid live _ => ?_⟩
  have entry := CoinsView.coinsAt_addOutputs (by decide : ∀ o ∈ (mintTx 1000 [payTo 5]).vout, 0 ≤ o.nValue)
    { hashBlock := 10059 } 5 txid
  have here : minedView.1.coinsAt txid = _ := entry
  rw [here] at live ⊢
  split at live
  · rename_i same
    rw [if_pos same]
    decide
  · simp [CoinsView.coinsAt] at live

def stakedView : { v : CoinsView // v.Clean } where
  val := (({ hashBlock := 10299 } : CoinsView).addOutputs (spendTx 1000 [⟨900, 1⟩] [stakeMarker, payTo 40]) 200).addOutputs
    (spendTx 1001 [⟨901, 0⟩] [payTo 100]) 150
  property := CoinsView.addOutputs_clean (by decide) (CoinsView.addOutputs_clean (by decide) (CoinsView.clean_empty _) 200) 150

def stakingBlock : CBlock :=
  { hash := 7
    hashPrevBlock := 10299
    vtx := [mintTx 2000 [stakeMarker], spendTx 2001 [⟨1001, 0⟩] [stakeMarker, payTo 132],
      spendTx 2002 [⟨1000, 0⟩, ⟨1000, 1⟩] [payTo 40]] }

/-- The block is accepted and disconnected cleanly, but the coinstake comes back without its mark. -/
theorem staking_block_not_undone : ∃ c blockundo,
    connectBlock (nodeAt 299) passingChecks stakingBlock (positionAfter 299).pindex (some (positionAfter 299).pprev)
      stakedView = .ok c ∧ c.blockundo = some blockundo ∧
    ¬ExactlyUndone stakingBlock (positionAfter 299).pindex (positionAfter 299).pprev blockundo stakedView c.view := by
  have run : ((connectBlock (nodeAt 299) passingChecks stakingBlock (positionAfter 299).pindex
      (some (positionAfter 299).pprev) stakedView).toOption.bind fun c => c.blockundo.bind fun blockundo =>
        (disconnectBlock stakingBlock (positionAfter 299).pindex (positionAfter 299).pprev blockundo c.view).toOption.map
          fun r => (r.2.coinsAt 1000).eqv (stakedView.1.coinsAt 1000)) = some false := by decide
  obtain ⟨c, connected, rest⟩ := Option.bind_eq_some_iff.mp run
  obtain ⟨blockundo, produced, rest⟩ := Option.bind_eq_some_iff.mp rest
  obtain ⟨r, disconnected, different⟩ := Option.map_eq_some_iff.mp rest
  refine ⟨c, blockundo, Checked.ok_of_toOption connected, produced, ?_⟩
  rintro ⟨w, undone, _, same⟩
  have result := Except.ok.inj ((Checked.ok_of_toOption disconnected).symm.trans undone)
  rw [result, same 1000] at different
  cases different

end Blocks

end SchillingCoin
