import SchillingCoin.Lib.Trimmed
import SchillingCoin.Primitives.Transaction

/-!
The unspent outputs of one transaction, after `CCoins` in `coins.h` and `coins.cpp`, and the undo
record of one spent output, after `CTxInUndo` in `undo.h`.
-/

namespace SchillingCoin

structure CCoins where
  fCoinBase : Bool := false
  fCoinStake : Bool := false
  vout : List CTxOut := []
  nHeight : Int := 0
  nVersion : Int := 0
  deriving DecidableEq, Repr

/-- The output an input spent. The other fields are set when it was the last unspent output. -/
structure CTxInUndo where
  txout : CTxOut
  fCoinBase : Bool := false
  fCoinStake : Bool := false
  nHeight : Int := 0
  nVersion : Int := 0
  deriving DecidableEq, Repr

namespace CCoins

def clear (_ : CCoins) : CCoins := {}

variable (c : CCoins)

def cleanup : CCoins := { c with vout := c.vout.rdropWhile CTxOut.isNull }

def clearUnspendable : CCoins :=
  cleanup { c with vout := c.vout.map fun o => if CScript.isUnspendable o.scriptPubKey then .null else o }

def fromTx (tx : CTransaction) (nHeight : Int) : CCoins :=
  clearUnspendable
    { fCoinBase := tx.isCoinBase, fCoinStake := tx.isCoinStake, vout := tx.vout, nHeight, nVersion := tx.nVersion }

def isPruned : Bool := c.vout.all CTxOut.isNull

def isAvailable (n : Nat) : Bool :=
  match c.vout[n]? with
  | none => false
  | some o => !o.isNull && !o.isZerocoinMint

/-- `operator==`: fully spent entries are equal whatever their other fields. -/
def eqv (a b : CCoins) : Bool := (a.isPruned && b.isPruned) || a == b

def spend (out : COutPoint) : Option (CCoins × CTxInUndo) :=
  match c.vout[out.n]? with
  | none => none
  | some o =>
    if o.isNull then none
    else
      let c' := cleanup { c with vout := c.vout.set out.n .null }
      if c'.vout.isEmpty then
        some (c', { txout := o, fCoinBase := c.fCoinBase, fCoinStake := c.fCoinStake,
                    nHeight := c.nHeight, nVersion := c.nVersion })
      else some (c', { txout := o })

def Trim : Prop := Trimmed.IsTrim CTxOut.isNull c.vout

@[simp] theorem isPruned_empty : isPruned {} = true := rfl

@[simp] theorem trim_empty : Trim {} := by simp [Trim, Trimmed.IsTrim]

theorem trim_cleanup : c.cleanup.Trim := Trimmed.isTrim_rdropWhile _ _

variable {c a b c' : CCoins} {n : Nat} {out : COutPoint} {undo : CTxInUndo}

theorem cleanup_of_trim (trim : c.Trim) : c.cleanup = c := by
  simp only [cleanup, Trimmed.rdropWhile_of_isTrim trim]

theorem isPruned_iff : c.isPruned = true ↔ ∀ o ∈ c.vout, o.isNull = true := by
  simp [isPruned]

theorem isPruned_of_trim (trim : c.Trim) : c.isPruned = c.vout.isEmpty := by
  rw [Bool.eq_iff_iff, isPruned_iff, List.isEmpty_iff]
  constructor
  · intro spent
    rw [← Trimmed.rdropWhile_of_isTrim trim]
    exact List.rdropWhile_eq_nil_iff.mpr spent
  · intro empty
    simp [empty]

theorem eqv_iff : eqv a b = true ↔ (a.isPruned = true ∧ b.isPruned = true) ∨ a = b := by
  simp [eqv]

@[simp] theorem eqv_refl (a : CCoins) : eqv a a = true := by simp [eqv]

theorem eqv_symm (h : eqv a b = true) : eqv b a = true := by
  rw [eqv_iff] at *
  tauto

theorem eqv_trans (first : eqv a b = true) (second : eqv b c = true) : eqv a c = true := by
  rw [eqv_iff] at *
  rcases first with ⟨pa, pb⟩ | rfl
  · rcases second with ⟨_, pc⟩ | rfl
    · exact Or.inl ⟨pa, pc⟩
    · exact Or.inl ⟨pa, pb⟩
  · exact second

theorem eqv_isPruned (h : eqv a b = true) : a.isPruned = b.isPruned := by
  rcases eqv_iff.mp h with ⟨pa, pb⟩ | rfl
  · rw [pa, pb]
  · rfl

/-- Spent outputs are the null output, and none is kept at the end of `vout`. -/
structure Clean (c : CCoins) : Prop where
  canonical : Trimmed.Canonical CTxOut.isNull CTxOut.null c.vout
  trim : c.Trim

/-- The output at a position, null when it is spent or was never there. -/
def outputAt (c : CCoins) (n : Nat) : CTxOut := c.vout.getD n .null

theorem clean_empty : Clean {} := ⟨by simp [Trimmed.Canonical], trim_empty⟩

theorem clean_cleanup (canonical : Trimmed.Canonical CTxOut.isNull CTxOut.null c.vout) : c.cleanup.Clean :=
  ⟨Trimmed.canonical_rdropWhile canonical, c.trim_cleanup⟩

theorem Clean.of_vout {d : CCoins} (clean : c.Clean) (same : d.vout = c.vout) : d.Clean := by
  constructor
  · rw [same]
    exact clean.canonical
  · rw [Trim, same]
    exact clean.trim

theorem vout_of_isPruned (clean : c.Clean) (pruned : c.isPruned = true) : c.vout = [] := by
  rw [isPruned_of_trim clean.trim] at pruned
  exact List.isEmpty_iff.mp pruned

theorem isPruned_congr {d : CCoins} (same : c.vout = d.vout) : c.isPruned = d.isPruned := by
  rw [isPruned, isPruned, same]

theorem isAvailable_of_null (spent : (c.outputAt n).isNull = true) : c.isAvailable n = false := by
  rw [outputAt, List.getD_eq_getElem?_getD] at spent
  unfold isAvailable
  cases found : c.vout[n]? with
  | none => rfl
  | some o =>
    rw [found] at spent
    have null : o.isNull = true := spent
    simp [null]

theorem isAvailable_iff :
    c.isAvailable n = true ↔ ∃ o, c.vout[n]? = some o ∧ o.isNull = false ∧ o.isZerocoinMint = false := by
  unfold isAvailable
  cases c.vout[n]? with
  | none => simp
  | some o => simp

theorem lt_of_isAvailable (available : c.isAvailable n = true) : n < c.vout.length := by
  obtain ⟨o, found, _⟩ := isAvailable_iff.mp available
  exact (List.getElem?_eq_some_iff.mp found).1

theorem isAvailable_of_isPruned (pruned : c.isPruned = true) (n : Nat) : c.isAvailable n = false := by
  rw [← Bool.not_eq_true, isAvailable_iff]
  intro available
  obtain ⟨o, found, left, _⟩ := available
  rw [isPruned_iff.mp pruned o (List.mem_of_getElem? found)] at left
  cases left

@[simp] theorem isAvailable_cleanup (c : CCoins) (n : Nat) : c.cleanup.isAvailable n = c.isAvailable n := by
  rw [Bool.eq_iff_iff, isAvailable_iff, isAvailable_iff]
  refine exists_congr fun o => and_congr_left fun left => ?_
  exact Trimmed.getElem?_rdropWhile_iff left.1

theorem isPruned_iff_outputAt : c.isPruned = true ↔ ∀ n, (c.outputAt n).isNull = true := by
  rw [isPruned_iff]
  constructor
  · intro spent n
    by_cases inside : n < c.vout.length
    · rw [outputAt, List.getD_eq_getElem _ _ inside]
      exact spent _ (List.getElem_mem inside)
    · rw [outputAt, List.getD_eq_default _ _ (Nat.le_of_not_lt inside)]
      rfl
  · intro spent o mem
    obtain ⟨n, inside, rfl⟩ := List.mem_iff_getElem.mp mem
    rw [← List.getD_eq_getElem _ CTxOut.null inside]
    exact spent n

theorem outputAt_null (clean : c.Clean) (spent : (c.outputAt n).isNull = true) : c.outputAt n = .null :=
  Trimmed.getD_canonical clean.canonical spent

/-- What spending an output does: the output is gone, the other fields stay, and the undo record holds
them when nothing is left. -/
structure Spent (c : CCoins) (n : Nat) (c' : CCoins) (undo : CTxInUndo) : Prop where
  clean : c'.Clean
  unspent : (c.outputAt n).isNull = false
  outputs : ∀ k, c'.outputAt k = if k = n then .null else c.outputAt k
  fields : c' = { c with vout := c'.vout }
  txout : undo.txout = c.outputAt n
  last : c'.isPruned = true → undo = { txout := c.outputAt n, fCoinBase := c.fCoinBase, fCoinStake := c.fCoinStake, nHeight := c.nHeight, nVersion := c.nVersion }
  notLast : c'.isPruned = false → undo = { txout := c.outputAt n }

theorem spend_spent (clean : c.Clean) (h : c.spend out = some (c', undo)) : Spent c out.n c' undo := by
  unfold spend at h
  cases found : c.vout[out.n]? with
  | none => simp [found] at h
  | some o =>
    have inside : out.n < c.vout.length := (List.getElem?_eq_some_iff.mp found).1
    have here : c.outputAt out.n = o := by simp [outputAt, List.getD_eq_getElem?_getD, found]
    cases null : o.isNull with
    | true => simp [found, null] at h
    | false =>
      have canonical : Trimmed.Canonical CTxOut.isNull CTxOut.null (c.vout.set out.n .null) :=
        Trimmed.canonical_set clean.canonical _ fun _ => rfl
      have clean' : (cleanup { c with vout := c.vout.set out.n .null }).Clean := clean_cleanup canonical
      have outputs : ∀ k, (cleanup { c with vout := c.vout.set out.n .null }).outputAt k =
          if k = out.n then .null else c.outputAt k := by
        intro k
        rw [outputAt, cleanup, Trimmed.getD_rdropWhile canonical, Trimmed.getD_set inside]
        rfl
      have empty := isPruned_of_trim clean'.trim
      simp only [found, null, Bool.false_eq_true, if_false] at h
      rw [← empty] at h
      split at h
      · rename_i pruned
        obtain ⟨rfl, rfl⟩ := Prod.mk.inj (Option.some.inj h)
        exact ⟨clean', here ▸ null, outputs, rfl, here.symm, fun _ => here ▸ rfl, fun left => absurd pruned (by simp [left])⟩
      · rename_i left
        obtain ⟨rfl, rfl⟩ := Prod.mk.inj (Option.some.inj h)
        exact ⟨clean', here ▸ null, outputs, rfl, here.symm, fun pruned => absurd pruned left, fun _ => here ▸ rfl⟩

theorem spend_eq (h : c.spend out = some (c', undo)) :
    c' = cleanup { c with vout := c.vout.set out.n .null } := by
  unfold spend at h
  split at h
  · cases h
  · split at h
    · cases h
    · dsimp only at h
      split at h
      · exact (Prod.mk.inj (Option.some.inj h)).1.symm
      · exact (Prod.mk.inj (Option.some.inj h)).1.symm

theorem unspent_spend (h : c.spend out = some (c', undo)) (left : o.isNull = false) (found : c'.vout[n]? = some o) :
    c.vout[n]? = some o := by
  rw [spend_eq h] at found
  replace found := (Trimmed.getElem?_rdropWhile_iff left).mp found
  by_cases here : n = out.n
  · rw [here, List.getElem?_set_self'] at found
    obtain ⟨_, _, rfl⟩ := Option.map_eq_some_iff.mp found
    cases left
  · rwa [List.getElem?_set_ne (Ne.symm here)] at found

theorem unspent_fromTx {nHeight : Int} (left : o.isNull = false) (found : (fromTx tx nHeight).vout[n]? = some o) :
    tx.vout[n]? = some o := by
  replace found := (Trimmed.getElem?_rdropWhile_iff left).mp found
  rw [List.getElem?_map] at found
  obtain ⟨o', made, same⟩ := Option.map_eq_some_iff.mp found
  split at same
  · rw [← same] at left
    cases left
  · rwa [← same]

theorem isAvailable_spend (h : c.spend out = some (c', undo)) (n : Nat) :
    c'.isAvailable n = (c.isAvailable n && !decide (n = out.n)) := by
  rw [spend_eq h, isAvailable_cleanup]
  by_cases here : n = out.n
  · rw [decide_eq_true here, Bool.not_true, Bool.and_false, ← Bool.not_eq_true, isAvailable_iff]
    intro available
    obtain ⟨o, found, left, _⟩ := available
    rw [here, List.getElem?_set_self'] at found
    obtain ⟨_, _, rfl⟩ := Option.map_eq_some_iff.mp found
    cases left
  · rw [decide_eq_false here, Bool.not_false, Bool.and_true]
    unfold isAvailable
    rw [List.getElem?_set_ne (Ne.symm here)]

theorem spend_of_available (available : c.isAvailable out.n = true) :
    ∃ c' undo, c.spend out = some (c', undo) := by
  obtain ⟨o, found, left, _⟩ := isAvailable_iff.mp available
  unfold spend
  rw [found]
  dsimp only
  rw [if_neg (by simp [left])]
  split
  · exact ⟨_, _, rfl⟩
  · exact ⟨_, _, rfl⟩

def Spendable (c : CCoins) : Prop := ∀ o ∈ c.vout, CScript.isUnspendable o.scriptPubKey = false

theorem fromTx_spendable (tx : CTransaction) (nHeight : Int) : (fromTx tx nHeight).Spendable := by
  intro o mem
  have kept := (List.rdropWhile_prefix CTxOut.isNull _).subset mem
  obtain ⟨o', _, rfl⟩ := List.mem_map.mp kept
  cases unspendable : CScript.isUnspendable o'.scriptPubKey with
  | true => rfl
  | false => simpa using unspendable

theorem fromTx_clean (nonneg : ∀ o ∈ tx.vout, 0 ≤ o.nValue) (nHeight : Int) : (fromTx tx nHeight).Clean := by
  apply clean_cleanup
  intro o kept null
  obtain ⟨o', mem, rfl⟩ := List.mem_map.mp kept
  cases unspendable : CScript.isUnspendable o'.scriptPubKey with
  | true => simp
  | false =>
    have value := nonneg o' mem
    simp only [unspendable, Bool.false_eq_true, if_false, CTxOut.isNull_iff] at null
    omega

theorem clearUnspendable_of_spendable (trim : c.Trim) (spendable : c.Spendable) :
    c.clearUnspendable = c := by
  have same : c.vout.map (fun o => if CScript.isUnspendable o.scriptPubKey then .null else o) = c.vout := by
    refine (List.map_congr_left fun o mem => ?_).trans (List.map_id _)
    rw [spendable o mem]
    rfl
  rw [clearUnspendable, same]
  exact cleanup_of_trim trim

end CCoins

end SchillingCoin
