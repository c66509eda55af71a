import SchillingCoin.Lib.StdMap
import SchillingCoin.Coins.CCoins

/-!
A coins view as the plain map that a stack of caches refines, with the lookups and changes block
validation makes, after `CCoinsViewCache` in `coins.cpp`.
-/

namespace SchillingCoin

structure CoinsView where
  coins : StdMap uint256 CCoins := ∅
  hashBlock : uint256 := 0

namespace CoinsView

def accessCoins (v : CoinsView) (txid : uint256) : Option CCoins := v.coins.lookup txid

/-- The entry a modification starts from. An absent entry counts as fully spent. -/
def coinsAt (v : CoinsView) (txid : uint256) : CCoins := (v.coins.lookup txid).getD {}

def modifyCoins (v : CoinsView) (txid : uint256) (change : CCoins → CCoins) : CoinsView :=
  { v with coins := v.coins.insert txid (change (v.coinsAt txid)).cleanup }

def setBestBlock (v : CoinsView) (hashBlock : uint256) : CoinsView := { v with hashBlock }

def isOutputAvailable (v : CoinsView) (o : COutPoint) : Bool := (v.coinsAt o.hash).isAvailable o.n

def haveInputs (v : CoinsView) (tx : CTransaction) : Bool :=
  tx.isCoinBase || tx.hasZerocoinSpendInputs || tx.vin.all fun i => v.isOutputAvailable i.prevout

/-- The output an input spends; `none` is the failed assertion that it is available. -/
def getOutputFor (v : CoinsView) (input : CTxIn) : Option CTxOut :=
  if v.isOutputAvailable input.prevout then (v.coinsAt input.prevout.hash).vout[input.prevout.n]? else none

def getValueIn (v : CoinsView) (tx : CTransaction) : Option Int :=
  if tx.isCoinBase then some 0
  else tx.vin.foldlM (fun nResult i => (v.getOutputFor i).map fun o => int64 (nResult + o.nValue)) 0

def spend (v : CoinsView) (out : COutPoint) : Option (CoinsView × CTxInUndo) :=
  ((v.coinsAt out.hash).spend out).map fun r => (v.modifyCoins out.hash fun _ => r.1, r.2)

/-- Spends the inputs in order, with their undo records; `none` is the failed assertion. -/
def spendInputs (v : CoinsView) : List CTxIn → Option (CoinsView × List CTxInUndo)
  | [] => some (v, [])
  | txin :: rest => do
    let (v, undo) ← v.spend txin.prevout
    let (v, undos) ← v.spendInputs rest
    return (v, undo :: undos)

def addOutputs (v : CoinsView) (tx : CTransaction) (nHeight : Nat) : CoinsView :=
  v.modifyCoins tx.hash fun _ => CCoins.fromTx tx nHeight

def updateCoins (v : CoinsView) (tx : CTransaction) (nHeight : Nat) : Option (CoinsView × List CTxInUndo) := do
  let (v, txundo) ← if !tx.isCoinBase && !tx.hasZerocoinSpendInputs then v.spendInputs tx.vin else some (v, [])
  return (v.addOutputs tx nHeight, txundo)

def Clean (v : CoinsView) : Prop := ∀ txid, (v.coinsAt txid).Clean

theorem clean_empty (hashBlock : uint256) : ({ hashBlock } : CoinsView).Clean := fun t => by
  have none : ({ hashBlock } : CoinsView).coinsAt t = {} := by simp [coinsAt]
  rw [none]
  exact CCoins.clean_empty

@[simp] theorem coinsAt_modifyCoins (v : CoinsView) (txid : uint256) (change : CCoins → CCoins) (t : uint256) :
    (v.modifyCoins txid change).coinsAt t = if t = txid then (change (v.coinsAt txid)).cleanup else v.coinsAt t := by
  unfold modifyCoins coinsAt
  rw [StdMap.lookup_insert_ite]
  split <;> rfl

variable {v w : CoinsView} {o : COutPoint} {undo : CTxInUndo} {vin : List CTxIn} {tx : CTransaction}

theorem isPruned_coinsAt :
    ((v.accessCoins txid).any fun coins => !coins.isPruned) = false ↔ (v.coinsAt txid).isPruned = true := by
  unfold accessCoins coinsAt
  cases v.coins.lookup txid with
  | none => simp
  | some c => simp

theorem isOutputAvailable_unspent (available : v.isOutputAvailable o = true) :
    ((v.coinsAt o.hash).outputAt o.n).isNull = false := by
  simp only [isOutputAvailable, CCoins.isAvailable] at available
  rw [CCoins.outputAt, List.getD_eq_getElem?_getD]
  cases found : (v.coinsAt o.hash).vout[o.n]? with
  | none => simp [found] at available
  | some out =>
    simp only [found, Bool.and_eq_true, Bool.not_eq_true'] at available
    exact available.1

@[simp] theorem isOutputAvailable_modifyCoins (v : CoinsView) (txid : uint256) (change : CCoins → CCoins) (o : COutPoint) :
    (v.modifyCoins txid change).isOutputAvailable o =
      if o.hash = txid then (change (v.coinsAt txid)).isAvailable o.n else v.isOutputAvailable o := by
  unfold isOutputAvailable
  rw [coinsAt_modifyCoins]
  split
  · exact CCoins.isAvailable_cleanup _ _
  · rfl

theorem isOutputAvailable_spend (h : v.spend o = some (w, undo)) (p : COutPoint) :
    w.isOutputAvailable p = (v.isOutputAvailable p && !decide (p = o)) := by
  unfold spend at h
  obtain ⟨⟨coins, _⟩, spent, done⟩ := Option.map_eq_some_iff.mp h
  obtain ⟨rfl, _⟩ := Prod.mk.inj done
  rw [isOutputAvailable_modifyCoins]
  by_cases same : p.hash = o.hash
  · have equal : p = o ↔ p.n = o.n := by
      refine ⟨congrArg COutPoint.n, fun position => ?_⟩
      cases p
      cases o
      cases same
      cases position
      rfl
    rw [if_pos same, CCoins.isAvailable_spend spent, isOutputAvailable, same, decide_eq_decide.mpr equal]
  · have other : p ≠ o := fun equal => same (congrArg COutPoint.hash equal)
    rw [if_neg same, decide_eq_false other, Bool.not_false, Bool.and_true]

theorem isOutputAvailable_spendInputs (h : v.spendInputs vin = some (w, undos)) (o : COutPoint) :
    w.isOutputAvailable o = (v.isOutputAvailable o && !decide (o ∈ vin.map CTxIn.prevout)) := by
  induction vin generalizing v undos with
  | nil =>
    obtain ⟨rfl, _⟩ := Prod.mk.inj (Option.some.inj h)
    simp
  | cons txin rest ih =>
    simp only [spendInputs, Option.bind_eq_bind, Option.bind_eq_some_iff] at h
    obtain ⟨⟨mid, undo⟩, first, ⟨last, undos'⟩, second, done⟩ := h
    obtain ⟨rfl, _⟩ := Prod.mk.inj (Option.some.inj done)
    rw [ih second, isOutputAvailable_spend first, List.map_cons, Bool.and_assoc]
    by_cases here : o = txin.prevout
    · simp [here]
    · simp [here]

theorem unspent_spendInputs (h : v.spendInputs vin = some (w, undos)) (left : out.isNull = false)
    (found : (w.coinsAt o.hash).vout[o.n]? = some out) : (v.coinsAt o.hash).vout[o.n]? = some out := by
  induction vin generalizing v undos with
  | nil =>
    obtain ⟨rfl, _⟩ := Prod.mk.inj (Option.some.inj h)
    exact found
  | cons txin rest ih =>
    simp only [spendInputs, Option.bind_eq_bind, Option.bind_eq_some_iff] at h
    obtain ⟨⟨mid, undo⟩, first, ⟨last, undos'⟩, second, done⟩ := h
    obtain ⟨rfl, _⟩ := Prod.mk.inj (Option.some.inj done)
    have there := ih second
    obtain ⟨⟨coins, _⟩, spent, made⟩ := Option.map_eq_some_iff.mp first
    obtain ⟨rfl, _⟩ := Prod.mk.inj made
    rw [coinsAt_modifyCoins] at there
    split at there
    · rename_i same
      rw [same]
      exact CCoins.unspent_spend spent left ((Trimmed.getElem?_rdropWhile_iff left).mp there)
    · exact there

theorem unspent_addOutputs (left : out.isNull = false)
    (found : ((v.addOutputs tx nHeight).coinsAt o.hash).vout[o.n]? = some out) :
    (if tx.hash = o.hash then tx.vout[o.n]? else (v.coinsAt o.hash).vout[o.n]?) = some out := by
  rw [addOutputs, coinsAt_modifyCoins] at found
  by_cases here : o.hash = tx.hash
  · rw [if_pos here] at found
    rw [if_pos here.symm]
    exact CCoins.unspent_fromTx left ((Trimmed.getElem?_rdropWhile_iff left).mp found)
  · rw [if_neg here] at found
    rwa [if_neg (Ne.symm here)]

theorem isOutputAvailable_addOutputs (v : CoinsView) (tx : CTransaction) (nHeight : Nat) (o : COutPoint) :
    (v.addOutputs tx nHeight).isOutputAvailable o =
      if o.hash = tx.hash then (CCoins.fromTx tx nHeight).isAvailable o.n else v.isOutputAvailable o :=
  isOutputAvailable_modifyCoins _ _ _ _

theorem isOutputAvailable_of_isPruned (pruned : (v.coinsAt txid).isPruned = true) (hash : o.hash = txid) :
    v.isOutputAvailable o = false := by
  unfold isOutputAvailable
  rw [hash]
  exact CCoins.isAvailable_of_isPruned pruned _

theorem spend_of_available (available : v.isOutputAvailable o = true) :
    ∃ w undo, v.spend o = some (w, undo) := by
  obtain ⟨coins, undo, spent⟩ := CCoins.spend_of_available available
  unfold spend
  rw [spent]
  exact ⟨_, _, rfl⟩

theorem spendInputs_of_available (available : ∀ txin ∈ vin, v.isOutputAvailable txin.prevout = true)
    (distinct : (vin.map CTxIn.prevout).Nodup) :
    ∃ w undos, v.spendInputs vin = some (w, undos) ∧ w.hashBlock = v.hashBlock := by
  induction vin generalizing v with
  | nil => exact ⟨v, [], rfl, rfl⟩
  | cons txin rest ih =>
    obtain ⟨mid, undo, first⟩ := spend_of_available (available txin List.mem_cons_self)
    have block : mid.hashBlock = v.hashBlock := by
      obtain ⟨_, _, done⟩ := Option.map_eq_some_iff.mp first
      rw [← (Prod.mk.inj done).1]
      rfl
    rw [List.map_cons, List.nodup_cons] at distinct
    have left : ∀ i ∈ rest, mid.isOutputAvailable i.prevout = true := by
      intro i member
      have other : i.prevout ≠ txin.prevout := fun same => distinct.1 (same ▸ List.mem_map_of_mem member)
      rw [isOutputAvailable_spend first, available i (List.mem_cons_of_mem _ member), decide_eq_false other]
      rfl
    obtain ⟨w, undos, later, block'⟩ := ih left distinct.2
    refine ⟨w, undo :: undos, ?_, block'.trans block⟩
    unfold spendInputs
    rw [first]
    simp [later]

theorem available_of_haveInputs (spends : tx.spendsCoins = true) (have_ : v.haveInputs tx = true) :
    ∀ o ∈ tx.prevouts, v.isOutputAvailable o = true := by
  obtain ⟨base, zerocoin⟩ := CTransaction.spendsCoins_iff.mp spends
  unfold haveInputs at have_
  rw [zerocoin, base, Bool.false_or, Bool.false_or, List.all_eq_true] at have_
  intro o member
  obtain ⟨txin, inside, rfl⟩ := List.mem_map.mp member
  exact have_ txin inside

theorem spend_coinsAt (clean : v.Clean) (h : v.spend o = some (v', undo)) :
    v'.hashBlock = v.hashBlock ∧ CCoins.Spent (v.coinsAt o.hash) o.n (v'.coinsAt o.hash) undo ∧
      ∀ t, t ≠ o.hash → v'.coinsAt t = v.coinsAt t := by
  unfold spend at h
  cases spent : (v.coinsAt o.hash).spend o with
  | none => simp [spent] at h
  | some r =>
    simp only [spent, Option.map_some, Option.some.injEq] at h
    obtain ⟨rfl, rfl⟩ := Prod.mk.inj h
    have entry := CCoins.spend_spent (clean o.hash) spent
    refine ⟨rfl, ?_, fun t other => by simp [other]⟩
    rw [coinsAt_modifyCoins, if_pos rfl, CCoins.cleanup_of_trim entry.clean.trim]
    exact entry

theorem spend_clean (clean : v.Clean) (h : v.spend o = some (v', undo)) : v'.Clean := by
  obtain ⟨_, spent, others⟩ := spend_coinsAt clean h
  intro t
  by_cases here : t = o.hash
  · exact here ▸ spent.clean
  · exact (others t here) ▸ clean t

theorem coinsAt_addOutputs (nonneg : ∀ o ∈ tx.vout, 0 ≤ o.nValue) (v : CoinsView) (nHeight : Nat)
    (t : uint256) :
    (v.addOutputs tx nHeight).coinsAt t = if t = tx.hash then CCoins.fromTx tx nHeight else v.coinsAt t := by
  rw [addOutputs, coinsAt_modifyCoins, CCoins.cleanup_of_trim (CCoins.fromTx_clean nonneg _).trim]

theorem addOutputs_clean (nonneg : ∀ o ∈ tx.vout, 0 ≤ o.nValue) (clean : v.Clean) (nHeight : Nat) :
    (v.addOutputs tx nHeight).Clean := by
  intro t
  rw [coinsAt_addOutputs nonneg]
  split
  · exact CCoins.fromTx_clean nonneg _
  · exact clean t

end CoinsView

end SchillingCoin
