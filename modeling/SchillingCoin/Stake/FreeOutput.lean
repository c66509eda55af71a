import SchillingCoin.Validation.CheckBlock

/-!
What `CheckColdStake` and `CheckColdStakeFreeOutput` leave to a cold staker.
-/

namespace SchillingCoin

namespace CTransaction

structure KeepsDelegation (tx : CTransaction) (script : CScript) : Prop where
  coinStake : tx.isCoinStake = true
  inputs : ∀ i ∈ tx.vin, ∀ j ∈ tx.vin, i.scriptSig = j.scriptSig
  outputs : ∀ i out, tx.vout[i]? = some out → i ≠ 0 → i = 1 ∨ i + 1 < tx.vout.length → out.scriptPubKey = script

def valueElsewhere (tx : CTransaction) (script : CScript) : Int :=
  ((tx.vout.filter fun out => out.scriptPubKey ≠ script).map CTxOut.nValue).sum

def MiddlePays (tx : CTransaction) (script : CScript) : Prop :=
  ∀ i out, tx.vout[i]? = some out → 2 ≤ i → i + 1 < tx.vout.length → out.scriptPubKey = script

variable {tx : CTransaction} {script : CScript}

theorem isCoinStake_shape (coinStake : tx.isCoinStake = true) :
    ∃ first others marker second rest, tx.vin = first :: others ∧ tx.vout = marker :: second :: rest ∧ marker.isEmpty = true := by
  unfold isCoinStake at coinStake
  split at coinStake
  · cases coinStake
  · rename_i first others inputs
    simp only at coinStake
    split at coinStake
    · cases coinStake
    · split at coinStake
      · rename_i marker second rest outputs
        exact ⟨first, others, marker, second, rest, inputs, outputs, coinStake⟩
      · cases coinStake

theorem middlePays_iff (outputs : tx.vout = marker :: second :: rest) :
    tx.MiddlePays script ↔ ∀ out ∈ rest.dropLast, out.scriptPubKey = script := by
  unfold MiddlePays
  rw [outputs]
  constructor
  · intro pays out member
    obtain ⟨i, inside, rfl⟩ := List.mem_iff_getElem.mp member
    have short : i + 1 < rest.length := by
      rw [List.length_dropLast] at inside
      omega
    rw [List.getElem_dropLast]
    exact pays (i + 2) _ (by simp) (by omega) (by simp only [List.length_cons]; omega)
  · intro pays i out found low high
    obtain ⟨k, rfl⟩ : ∃ k, i = k + 2 := ⟨i - 2, by omega⟩
    simp only [List.length_cons] at high
    have within : k < rest.length := by omega
    have here : rest[k] = out := by simpa [within] using found
    apply pays
    exact List.mem_iff_getElem.mpr ⟨k, by rw [List.length_dropLast]; omega, by rw [List.getElem_dropLast]; exact here⟩

theorem checkColdStake_iff :
    tx.checkColdStake script = true ↔ tx.isCoinStake = true ∧ (∀ i ∈ tx.vin, ∀ j ∈ tx.vin, i.scriptSig = j.scriptSig) ∧
      (tx.vout[1]?).map CTxOut.scriptPubKey = some script ∧ (3 < tx.vin.length → tx.MiddlePays script) := by
  unfold checkColdStake
  by_cases coinStake : tx.isCoinStake = true
  · obtain ⟨first, others, marker, second, rest, inputs, outputs, _⟩ := isCoinStake_shape coinStake
    have same : (∀ i ∈ tx.vin, ∀ j ∈ tx.vin, i.scriptSig = j.scriptSig) ↔ ∀ i ∈ others, i.scriptSig = first.scriptSig := by
      rw [inputs]
      constructor
      · intro equal i member
        exact equal i (List.mem_cons_of_mem _ member) first List.mem_cons_self
      · intro equal i member j member'
        have single : ∀ k ∈ first :: others, k.scriptSig = first.scriptSig := List.forall_mem_cons.mpr ⟨rfl, equal⟩
        rw [single i member, single j member']
    rw [same, middlePays_iff outputs, outputs, inputs]
    simp only [coinStake, Bool.true_and, Bool.and_eq_true, Bool.or_eq_true, Bool.not_eq_true', decide_eq_false_iff_not, List.all_eq_true,
      beq_iff_eq, List.getElem?_cons_succ, List.getElem?_cons_zero, Option.map_some, Option.some.injEq, true_and, and_assoc,
      gt_iff_lt, Decidable.imp_iff_not_or]
  · simp [coinStake]

theorem KeepsDelegation.valueElsewhere_le (keeps : tx.KeepsDelegation script) (positive : 0 ≤ payment)
    (free : ∀ lastOut before others, tx.vout.reverse = lastOut :: before :: others → others ≠ [] → lastOut.scriptPubKey = before.scriptPubKey ∨ lastOut.nValue = payment) :
    tx.valueElsewhere script ≤ payment := by
  obtain ⟨_, _, marker, second, rest, _, outputs, empty⟩ := isCoinStake_shape keeps.coinStake
  obtain ⟨middle, last, split⟩ : ∃ middle last, second :: rest = middle ++ [last] :=
    ⟨_, _, (List.dropLast_concat_getLast (List.cons_ne_nil second rest)).symm⟩
  rw [split] at outputs
  have nothing : marker.nValue = 0 := by
    simp only [CTxOut.isEmpty, Bool.and_eq_true, beq_iff_eq] at empty
    exact empty.1
  have inside : ∀ out ∈ middle, out.scriptPubKey = script := by
    intro out member
    obtain ⟨i, within, rfl⟩ := List.mem_iff_getElem.mp member
    refine keeps.outputs (i + 1) _ ?_ (by omega) (Or.inr ?_)
    · rw [outputs, List.getElem?_cons_succ, List.getElem?_append_left within, List.getElem?_eq_getElem within]
    · rw [outputs]
      simp only [List.length_cons, List.length_append, List.length_nil]
      omega
  have payout : last.scriptPubKey = script ∨ last.nValue = payment := by
    rcases List.eq_nil_or_concat middle with rfl | ⟨front, before, rfl⟩
    · exact Or.inl (keeps.outputs 1 last (by rw [outputs]; rfl) (by omega) (Or.inl rfl))
    · have reversed : tx.vout.reverse = last :: before :: (front.reverse ++ [marker]) := by
        rw [outputs]
        simp
      rcases free _ _ _ reversed (by simp) with same | paid
      · rw [same]
        exact Or.inl (inside before (by simp))
      · exact Or.inr paid
  have none_ : middle.filter (fun out => out.scriptPubKey ≠ script) = [] :=
    List.filter_eq_nil_iff.mpr fun out member => by simp [inside out member]
  unfold valueElsewhere
  rw [outputs, List.filter_cons, List.filter_append, none_]
  by_cases elsewhere : last.scriptPubKey = script
  · split <;> simp [elsewhere, nothing, positive]
  · have paid := payout.resolve_left elsewhere
    split <;> simp [elsewhere, nothing, paid]

end CTransaction

theorem ChainState.checkColdStakeFreeOutput_ok {s : ChainState} {nHeight : Nat} (synced : s.isSynced = true)
    (ordinary : s.budget.isBudgetPaymentBlock nHeight = false) (accepted : s.checkColdStakeFreeOutput checks tx nHeight = true)
    (delegated : tx.hasP2CSOutputs = true) :
    ∀ lastOut before others, tx.vout.reverse = lastOut :: before :: others → others ≠ [] →
      lastOut.scriptPubKey = before.scriptPubKey ∨
        lastOut.nValue = Network.getMasternodePayment nHeight (s.network.getBlockValue nHeight) := by
  intro lastOut before others reversed more
  obtain ⟨other, rest, rfl⟩ := List.exists_cons_of_ne_nil more
  unfold checkColdStakeFreeOutput at accepted
  simp only [delegated, Bool.not_true, Bool.false_eq_true, if_false, reversed, synced, ordinary] at accepted
  by_cases same : lastOut.scriptPubKey = before.scriptPubKey
  · exact Or.inl same
  rw [if_neg same] at accepted
  by_cases paid : lastOut.nValue = Network.getMasternodePayment nHeight (s.network.getBlockValue nHeight)
  · exact Or.inr paid
  · rw [if_neg paid] at accepted
    simp at accepted

namespace CTransaction

def StakerBound (tx : CTransaction) (script : CScript) : Prop :=
  ∀ (s : ChainState) (checks : Checks) (nHeight : Nat), s.isSynced = true → s.budget.isBudgetPaymentBlock nHeight = false →
    CScript.isPayToColdStaking script = true → s.checkColdStakeFreeOutput checks tx nHeight = true →
    tx.valueElsewhere script ≤ Network.getMasternodePayment nHeight (s.network.getBlockValue nHeight)

theorem getMasternodePayment_nonneg (network : Network) (nHeight : Nat) :
    0 ≤ Network.getMasternodePayment nHeight (network.getBlockValue nHeight) := by
  unfold Network.getMasternodePayment Network.getBlockValue
  split_ifs <;> decide

theorem accepted_keeps_iff {tx : CTransaction} (accepted : tx.checkColdStake script = true) :
    tx.KeepsDelegation script ∧ tx.StakerBound script ↔ 3 < tx.vin.length ∨ tx.MiddlePays script := by
  obtain ⟨coinStake, inputs, second, guarded⟩ := checkColdStake_iff.mp accepted
  constructor
  · rintro ⟨keeps, _⟩
    exact Or.inr fun i out found low high => keeps.outputs i out found (by omega) (Or.inr high)
  · intro condition
    have middle : tx.MiddlePays script := condition.elim guarded id
    have keeps : tx.KeepsDelegation script := by
      refine ⟨coinStake, inputs, fun i out found positive covered => ?_⟩
      by_cases first : i = 1
      · rw [first] at found
        rw [found] at second
        exact Option.some.inj second
      · exact middle i out found (by omega) (covered.resolve_left first)
    refine ⟨keeps, fun s checks nHeight synced ordinary cold free => ?_⟩
    have delegated : tx.hasP2CSOutputs = true := by
      obtain ⟨out, found, same⟩ := Option.map_eq_some_iff.mp second
      exact List.any_eq_true.mpr ⟨out, List.mem_of_getElem? found, by rw [same]; exact cold⟩
    exact keeps.valueElsewhere_le (getMasternodePayment_nonneg s.network nHeight)
      (ChainState.checkColdStakeFreeOutput_ok synced ordinary free delegated)

def divertedStake (nIn nOut : Nat) : CTransaction :=
  { hash := 9
    vin := List.replicate nIn { prevout := ⟨1, 0⟩ }
    vout := { nValue := 0, scriptPubKey := [] } :: { nValue := 1, scriptPubKey := [0x51] } ::
      List.replicate (nOut - 2) { nValue := 1, scriptPubKey := [0x52] } }

theorem divertedStake_accepted (some_ : 0 < nIn) (few : nIn ≤ 3) (many : 4 ≤ nOut) :
    (divertedStake nIn nOut).vin.length = nIn ∧ (divertedStake nIn nOut).vout.length = nOut ∧
      (divertedStake nIn nOut).checkColdStake [0x51] = true ∧ ¬(divertedStake nIn nOut).MiddlePays [0x51] := by
  refine ⟨by simp [divertedStake], by simp [divertedStake]; omega, ?_, ?_⟩
  · refine checkColdStake_iff.mpr ⟨?_, ?_, rfl, fun more => ?_⟩
    · obtain ⟨k, rfl⟩ : ∃ k, nIn = k + 1 := ⟨nIn - 1, by omega⟩
      rfl
    · intro i member j member'
      rw [List.eq_of_mem_replicate member, List.eq_of_mem_replicate member']
    · simp only [divertedStake, List.length_replicate] at more
      omega
  · intro pays
    have third := pays 2 { nValue := 1, scriptPubKey := [0x52] } (by
      obtain ⟨k, rfl⟩ : ∃ k, nOut = k + 3 := ⟨nOut - 3, by omega⟩
      rfl) (by omega) (by simp [divertedStake]; omega)
    cases third

/-- The delegation is kept exactly where the loop over the outputs runs or has nothing to find; coinstakes of every other number of
inputs and outputs can take the coins elsewhere. -/
theorem delegation_kept_iff (nIn nOut : Nat) :
    (∀ (tx : CTransaction) (script : CScript), tx.checkColdStake script = true →
      (tx.KeepsDelegation script ∧ tx.StakerBound script ↔ 3 < tx.vin.length ∨ tx.MiddlePays script)) ∧
    ((∀ (tx : CTransaction) (script : CScript), tx.vin.length = nIn → tx.vout.length = nOut →
      tx.checkColdStake script = true → tx.KeepsDelegation script ∧ tx.StakerBound script) ↔ nIn = 0 ∨ 3 < nIn ∨ nOut ≤ 3) := by
  refine ⟨fun tx script => accepted_keeps_iff, ⟨fun kept => ?_, fun shape tx script inputs outputs accepted => ?_⟩⟩
  · by_contra other
    obtain ⟨sameIn, sameOut, accepted, diverted⟩ := @divertedStake_accepted nIn nOut (by omega) (by omega) (by omega)
    rcases (accepted_keeps_iff accepted).mp (kept _ _ sameIn sameOut accepted) with many | pays
    · omega
    · exact diverted pays
  · apply (accepted_keeps_iff accepted).mpr
    rcases shape with none_ | many | short
    · obtain ⟨_, _, _, _, _, vin, _⟩ := isCoinStake_shape (checkColdStake_iff.mp accepted).1
      rw [vin] at inputs
      simp only [List.length_cons] at inputs
      omega
    · exact Or.inl (by omega)
    · exact Or.inr fun i out _ low high => by omega

def delegatedScript : CScript :=
  [0x76, 0xa9, 0x7b, 0x63, 0xd1, 0x14] ++ List.replicate 20 0x0a ++ [0x67, 0x14] ++ List.replicate 20 0x0b ++ [0x68, 0x88, 0xac]

def stolenStake : CTransaction :=
  { hash := 9
    vin := [{ prevout := ⟨1, 0⟩ }]
    vout := [{ nValue := 0, scriptPubKey := [] }, { nValue := COIN, scriptPubKey := delegatedScript },
      { nValue := 900 * COIN, scriptPubKey := [0x52] }, { nValue := 2583999920, scriptPubKey := [0x53] }] }

def syncedMain : ChainState := { network := .main, hashGenesisBlock := 0, isSynced := true }

theorem delegation_stolen : stolenStake.checkColdStake delegatedScript = true ∧ CScript.isPayToColdStaking delegatedScript = true ∧
    syncedMain.budget.isBudgetPaymentBlock 2000 = false ∧
    (∀ checks, syncedMain.checkColdStakeFreeOutput checks stolenStake 2000 = true) ∧
    ¬stolenStake.KeepsDelegation delegatedScript ∧
    Network.getMasternodePayment 2000 (Network.main.getBlockValue 2000) < stolenStake.valueElsewhere delegatedScript := by
  refine ⟨by decide, by decide, by decide, fun _ => rfl, fun keeps => ?_, by decide⟩
  have third := keeps.outputs 2 { nValue := 900 * COIN, scriptPubKey := [0x52] } rfl (by decide) (Or.inr (by decide))
  exact absurd third (by decide)

end CTransaction

end SchillingCoin
