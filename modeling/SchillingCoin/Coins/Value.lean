import Mathlib.Algebra.Order.BigOperators.Group.List
import SchillingCoin.Coins.View

/-!
The value of the unspent outputs of an entry and of a view, and what spending an output and adding
the outputs of a transaction do to it.
-/

namespace SchillingCoin

namespace CTransaction

/-- The sum of the output values, without the limits of `GetValueOut`. -/
def valueOut (tx : CTransaction) : Int := (tx.vout.map CTxOut.nValue).sum

def valueBurned (tx : CTransaction) : Int :=
  (tx.vout.map fun o => if CScript.isUnspendable o.scriptPubKey then o.nValue else 0).sum

theorem valueBurned_nonneg {tx : CTransaction} (nonneg : ∀ o ∈ tx.vout, 0 ≤ o.nValue) : 0 ≤ tx.valueBurned := by
  apply List.sum_nonneg
  intro x mem
  obtain ⟨o, output, rfl⟩ := List.mem_map.mp mem
  split
  · exact nonneg o output
  · exact le_rfl

end CTransaction

def CTxOut.unspentValue (o : CTxOut) : Int := if o.isNull then 0 else o.nValue

@[simp] theorem CTxOut.unspentValue_null : CTxOut.null.unspentValue = 0 := rfl

theorem CTxOut.unspentValue_of_nonneg {o : CTxOut} (nonneg : 0 ≤ o.nValue) : o.unspentValue = o.nValue := by
  have unspent : o.isNull = false := by
    rw [Bool.eq_false_iff, ne_eq, CTxOut.isNull_iff]
    omega
  simp [unspentValue, unspent]

namespace CCoins

def totalValue (c : CCoins) : Int := (c.vout.map CTxOut.unspentValue).sum

@[simp] theorem totalValue_empty : totalValue {} = 0 := rfl

theorem totalValue_of_isPruned {c : CCoins} (pruned : c.isPruned = true) : c.totalValue = 0 := by
  apply List.sum_eq_zero
  intro x mem
  obtain ⟨o, output, rfl⟩ := List.mem_map.mp mem
  rw [CTxOut.unspentValue, isPruned_iff.mp pruned o output, if_pos rfl]

theorem totalValue_cleanup (c : CCoins) : c.cleanup.totalValue = c.totalValue := by
  unfold totalValue cleanup
  generalize c.vout = vout
  induction vout using List.reverseRecOn with
  | nil => rfl
  | append_singleton l o ih =>
    cases null : o.isNull with
    | true =>
      rw [List.rdropWhile_concat_pos _ _ _ null]
      simpa [CTxOut.unspentValue, null] using ih
    | false => rw [List.rdropWhile_concat_neg _ _ _ (by simp [null])]

theorem totalValue_spend {c : CCoins} (h : c.spend out = some (c', undo)) :
    c'.totalValue = c.totalValue - (c.outputAt out.n).nValue := by
  unfold spend at h
  cases found : c.vout[out.n]? with
  | none => simp [found] at h
  | some o =>
    obtain ⟨inside, here⟩ := List.getElem?_eq_some_iff.mp found
    cases null : o.isNull with
    | true => simp [found, null] at h
    | false =>
      have spent : c' = cleanup { c with vout := c.vout.set out.n .null } := by
        simp only [found, null, Bool.false_eq_true, if_false] at h
        split at h <;> exact (Prod.mk.inj (Option.some.inj h)).1.symm
      have value : o.unspentValue = o.nValue := by simp [CTxOut.unspentValue, null]
      have output : c.outputAt out.n = o := by simp [outputAt, List.getD_eq_getElem?_getD, found]
      rw [spent, totalValue_cleanup, output]
      simp only [totalValue, List.map_set, List.sum_set', List.length_map, inside, dif_pos, List.getElem_map, here, value,
        CTxOut.unspentValue_null, add_zero]
      rfl

theorem totalValue_fromTx {tx : CTransaction} (nonneg : ∀ o ∈ tx.vout, 0 ≤ o.nValue) (nHeight : Int) :
    (fromTx tx nHeight).totalValue = tx.valueOut - tx.valueBurned := by
  rw [fromTx, clearUnspendable, totalValue_cleanup]
  simp only [totalValue, CTransaction.valueOut, CTransaction.valueBurned, List.map_map]
  have split : ∀ l : List CTxOut, (∀ o ∈ l, 0 ≤ o.nValue) →
      (l.map (CTxOut.unspentValue ∘ fun o => if CScript.isUnspendable o.scriptPubKey then .null else o)).sum =
        (l.map CTxOut.nValue).sum - (l.map fun o => if CScript.isUnspendable o.scriptPubKey then o.nValue else 0).sum := by
    intro l
    induction l with
    | nil => simp
    | cons o l ih =>
      intro values
      have rest := ih fun p mem => values p (by simp [mem])
      have here : 0 ≤ o.nValue := values o (by simp)
      simp only [List.map_cons, List.sum_cons, Function.comp_apply, rest]
      cases unspendable : CScript.isUnspendable o.scriptPubKey with
      | true =>
        simp only [if_true, CTxOut.unspentValue_null]
        omega
      | false =>
        simp only [Bool.false_eq_true, if_false, CTxOut.unspentValue_of_nonneg here]
        omega
  exact split tx.vout nonneg

def Nonneg (c : CCoins) : Prop := ∀ o ∈ c.vout, 0 ≤ o.unspentValue

theorem totalValue_nonneg {c : CCoins} (nonneg : c.Nonneg) : 0 ≤ c.totalValue := by
  apply List.sum_nonneg
  intro x mem
  obtain ⟨o, output, rfl⟩ := List.mem_map.mp mem
  exact nonneg o output

theorem Nonneg.spend {c : CCoins} (nonneg : c.Nonneg) (h : c.spend out = some (c', undo)) : c'.Nonneg := by
  have kept : c'.vout ⊆ .null :: c.vout := by
    unfold CCoins.spend at h
    split at h
    · cases h
    · split at h
      · cases h
      · have subset : ∀ o ∈ (c.vout.set out.n .null).rdropWhile CTxOut.isNull, o ∈ CTxOut.null :: c.vout := by
          intro o mem
          rcases List.mem_or_eq_of_mem_set ((List.rdropWhile_prefix _ _).subset mem) with old | rfl
          · exact List.mem_cons_of_mem _ old
          · exact List.mem_cons_self
        dsimp only at h
        split at h <;> (obtain ⟨rfl, _⟩ := Prod.mk.inj (Option.some.inj h); exact subset)
  intro o mem
  rcases List.mem_cons.mp (kept mem) with rfl | old
  · simp
  · exact nonneg o old

theorem nonneg_fromTx {tx : CTransaction} (nonneg : ∀ o ∈ tx.vout, 0 ≤ o.nValue) (nHeight : Int) :
    (fromTx tx nHeight).Nonneg := by
  intro o mem
  obtain ⟨p, output, rfl⟩ := List.mem_map.mp ((List.rdropWhile_prefix _ _).subset mem)
  split
  · simp
  · rw [CTxOut.unspentValue_of_nonneg (nonneg p output)]
    exact nonneg p output

end CCoins

namespace CoinsView

def totalUnspent (v : CoinsView) : Int := StdMap.sum (fun _ c => c.totalValue) v.coins

def valueAt (v : CoinsView) (o : COutPoint) : Int := ((v.coinsAt o.hash).outputAt o.n).nValue

theorem totalUnspent_modifyCoins (v : CoinsView) (txid : uint256) (change : CCoins → CCoins) :
    (v.modifyCoins txid change).totalUnspent =
      v.totalUnspent - (v.coinsAt txid).totalValue + (change (v.coinsAt txid)).totalValue := by
  have before : StdMap.weightAt (fun _ c => c.totalValue) v.coins txid = (v.coinsAt txid).totalValue := by
    unfold StdMap.weightAt coinsAt
    cases v.coins.lookup txid <;> rfl
  have split := StdMap.sum_erase (fun _ (c : CCoins) => c.totalValue) v.coins txid
  rw [totalUnspent, modifyCoins, StdMap.sum_insert, CCoins.totalValue_cleanup, totalUnspent, split, before]
  omega

theorem totalUnspent_spend {v : CoinsView} (h : v.spend o = some (v', undo)) :
    v'.totalUnspent = v.totalUnspent - v.valueAt o := by
  unfold spend at h
  obtain ⟨r, spent, pair⟩ := Option.map_eq_some_iff.mp h
  obtain ⟨rfl, _⟩ := Prod.mk.inj pair
  rw [totalUnspent_modifyCoins, CCoins.totalValue_spend spent, valueAt]
  omega

theorem totalUnspent_addOutputs {v : CoinsView} {tx : CTransaction} (pruned : (v.coinsAt tx.hash).isPruned = true)
    (nonneg : ∀ o ∈ tx.vout, 0 ≤ o.nValue) (nHeight : Nat) :
    (v.addOutputs tx nHeight).totalUnspent = v.totalUnspent + tx.valueOut - tx.valueBurned := by
  rw [addOutputs, totalUnspent_modifyCoins, CCoins.totalValue_of_isPruned pruned, CCoins.totalValue_fromTx nonneg]
  omega

structure Sound (v : CoinsView) : Prop where
  clean : v.Clean
  nonneg : ∀ txid, (v.coinsAt txid).Nonneg

theorem sound_empty (hashBlock : uint256) : ({ hashBlock } : CoinsView).Sound := by
  refine ⟨clean_empty hashBlock, fun t => ?_⟩
  have none : ({ hashBlock } : CoinsView).coinsAt t = {} := by simp [coinsAt]
  rw [none]
  intro o mem
  cases mem

theorem Sound.spend {v : CoinsView} (sound : v.Sound) (h : v.spend o = some (v', undo)) : v'.Sound := by
  refine ⟨spend_clean sound.clean h, fun t => ?_⟩
  by_cases here : t = o.hash
  · subst here
    unfold CoinsView.spend at h
    obtain ⟨r, spent, pair⟩ := Option.map_eq_some_iff.mp h
    obtain ⟨rfl, _⟩ := Prod.mk.inj pair
    have entry := (CCoins.spend_spent (sound.clean o.hash) spent).clean
    rw [coinsAt_modifyCoins, if_pos rfl, CCoins.cleanup_of_trim entry.trim]
    exact (sound.nonneg o.hash).spend spent
  · rw [(spend_coinsAt sound.clean h).2.2 t here]
    exact sound.nonneg t

theorem Sound.addOutputs {v : CoinsView} (sound : v.Sound) (nonneg : ∀ o ∈ tx.vout, 0 ≤ o.nValue) (nHeight : Nat) :
    (v.addOutputs tx nHeight).Sound := by
  refine ⟨addOutputs_clean nonneg sound.clean nHeight, fun t => ?_⟩
  rw [coinsAt_addOutputs nonneg]
  split
  · exact CCoins.nonneg_fromTx nonneg _
  · exact sound.nonneg t

theorem totalUnspent_nonneg {v : CoinsView} (sound : v.Sound) : 0 ≤ v.totalUnspent := by
  apply List.sum_nonneg
  intro x mem
  obtain ⟨e, entry, rfl⟩ := List.mem_map.mp mem
  have found := StdMap.mem_entries_iff.mp entry
  have here : v.coinsAt e.1 = e.2 := by simp [coinsAt, found]
  exact CCoins.totalValue_nonneg (here ▸ sound.nonneg e.1)

end CoinsView

end SchillingCoin
