import Mathlib.Data.FinEnum
import Mathlib.Algebra.Order.BigOperators.Group.List
import SchillingCoin.Wallet.AvailableCoins

/-!
Debits and credits of wallet transactions, after `IsMine` in `wallet_ismine.cpp` and `GetDebit`, `GetCredit` and `GetUnspentCredit` of
`CWallet` and `CWalletTx` in `wallet.cpp`.
-/

namespace SchillingCoin

def ISMINE_ALL : isminetype := ISMINE_WATCH_ONLY ||| ISMINE_SPENDABLE ||| ISMINE_COLD ||| ISMINE_SPENDABLE_DELEGATED

structure OwnedScripts where
  haveKey : CKeyID → Bool
  getCScript : CKeyID → Option CScript
  haveWatchOnly : CScript → Bool
  haveMultiSig : CScript → Bool
  /-- `CPubKey::GetID`. -/
  getID : valtype → CKeyID

namespace OwnedScripts

variable (keystore : OwnedScripts)

def haveKeyHash (vch : valtype) : Bool := (CKeyID.ofBytes vch).any keystore.haveKey

def haveKeys (pubkeys : List valtype) : Nat := pubkeys.countP fun pubkey => keystore.haveKey (keystore.getID pubkey)

variable (scriptPubKey : CScript)

def watched : isminetype :=
  if keystore.haveWatchOnly scriptPubKey then ISMINE_WATCH_ONLY
  else if keystore.haveMultiSig scriptPubKey then ISMINE_MULTISIG
  else ISMINE_NO

def coldStakeType (spendKeyIsMine stakeKeyIsMine : Bool) : Option isminetype :=
  if spendKeyIsMine && stakeKeyIsMine then some ISMINE_SPENDABLE_STAKEABLE
  else if stakeKeyIsMine then some ISMINE_COLD
  else if spendKeyIsMine then some ISMINE_SPENDABLE_DELEGATED
  else none

def spendableIf (owned : Bool) : Option isminetype := if owned then some ISMINE_SPENDABLE else none

/-- `IsMine`. The rounds bound the redeem scripts that are payments to script hashes themselves. -/
def isMine : Nat → CScript → isminetype
  | 0, _ => ISMINE_NO
  | rounds + 1, scriptPubKey =>
    if keystore.watched scriptPubKey ≠ ISMINE_NO then keystore.watched scriptPubKey
    else
      let ret := match CScript.solver scriptPubKey with
        | some (.TX_ZEROCOINMINT, vch :: _) => spendableIf (keystore.haveKey (keystore.getID vch))
        | some (.TX_PUBKEY, vch :: _) => spendableIf (keystore.haveKey (keystore.getID vch))
        | some (.TX_PUBKEYHASH, vch :: _) => spendableIf (keystore.haveKeyHash vch)
        | some (.TX_SCRIPTHASH, vch :: _) => ((CKeyID.ofBytes vch).bind keystore.getCScript).bind fun subscript =>
          let ret := isMine rounds subscript
          if ret ≠ ISMINE_NO then some ret else none
        | some (.TX_COLDSTAKE, stakeKey :: ownerKey :: _) =>
          coldStakeType (keystore.haveKeyHash ownerKey) (keystore.haveKeyHash stakeKey)
        | some (.TX_MULTISIG, vSolutions) =>
          spendableIf (decide (keystore.haveKeys vSolutions.tail.dropLast = vSolutions.tail.dropLast.length))
        | _ => none
      ret.getD (keystore.watched scriptPubKey)

/-- The values of `IsMine`. Only the last one has more than one bit. -/
def ownerships : List isminetype :=
  [ISMINE_NO, ISMINE_WATCH_ONLY, ISMINE_MULTISIG, ISMINE_SPENDABLE, ISMINE_COLD, ISMINE_SPENDABLE_DELEGATED, ISMINE_SPENDABLE_STAKEABLE]

theorem watched_ownership : keystore.watched scriptPubKey ∈ ownerships := by
  unfold watched
  split_ifs <;> decide

theorem isMine_ownership (rounds : Nat) (scriptPubKey : CScript) : keystore.isMine rounds scriptPubKey ∈ ownerships := by
  induction rounds generalizing scriptPubKey with
  | zero => show ISMINE_NO ∈ ownerships; decide
  | succ rounds ih =>
    have watch := keystore.watched_ownership scriptPubKey
    have spendable (owned : Bool) : (spendableIf owned).getD (keystore.watched scriptPubKey) ∈ ownerships := by
      cases owned with
      | true => show ISMINE_SPENDABLE ∈ ownerships; decide
      | false => exact watch
    unfold isMine
    split
    · exact watch
    · dsimp only
      split
      · exact spendable _
      · exact spendable _
      · exact spendable _
      · cases (CKeyID.ofBytes _).bind keystore.getCScript with
        | none => exact watch
        | some subscript =>
          rw [Option.bind_some]
          split
          · exact ih subscript
          · exact watch
      · next stakeKey ownerKey _ _ =>
        cases keystore.haveKeyHash ownerKey <;> cases keystore.haveKeyHash stakeKey
        · exact watch
        · show ISMINE_COLD ∈ ownerships; decide
        · show ISMINE_SPENDABLE_DELEGATED ∈ ownerships; decide
        · show ISMINE_SPENDABLE_STAKEABLE ∈ ownerships; decide
      · exact spendable _
      · exact watch

end OwnedScripts

def SpendContext.withKeys (ctx : SpendContext) (keystore : OwnedScripts) (rounds : Nat) : SpendContext :=
  { ctx with isMineScript := keystore.isMine rounds }

namespace CWallet

variable (ctx : SpendContext) (w : CWallet)

def prevOutOf (txin : CTxIn) : Option CTxOut := (w.mapWallet.lookup txin.prevout.hash).bind fun prev => prev.tx.vout[txin.prevout.n]?

variable (filter : isminetype)

def debitOf (txin : CTxIn) : Int :=
  match w.prevOutOf txin with
  | none => 0
  | some out => if ctx.isMineScript out.scriptPubKey &&& filter ≠ 0 then out.nValue else 0

def addDebits (filter : isminetype) : Int → List CTxIn → Option Int
  | nDebit, [] => some nDebit
  | nDebit, txin :: rest =>
    let nDebit := nDebit + debitOf ctx w filter txin
    if !ctx.network.consensus.moneyRange nDebit then none else addDebits filter nDebit rest

/-- `GetDebit` of a transaction; `none` is the exception for a value out of range. -/
def getDebit (tx : CTransaction) (filter : isminetype) : Option Int := addDebits ctx w filter 0 tx.vin

def creditOf (out : CTxOut) : Option Int :=
  if !ctx.network.consensus.moneyRange out.nValue then none
  else some (if ctx.isMineScript out.scriptPubKey &&& filter ≠ 0 then out.nValue else 0)

def addCredits (filter : isminetype) (skipped : Nat → Bool) : Int → List (CTxOut × Nat) → Option Int
  | nCredit, [] => if !ctx.network.consensus.moneyRange nCredit then none else some nCredit
  | nCredit, p :: rest =>
    if skipped p.2 then addCredits filter skipped nCredit rest
    else (creditOf ctx filter p.1).bind fun credit => addCredits filter skipped (nCredit + credit) rest

def getCredit (tx : CTransaction) (filter : isminetype) (fUnspent : Bool) : Option Int :=
  addCredits ctx filter (fun i => fUnspent && w.isSpent ctx.toWalletContext ⟨tx.hash, i⟩) 0 tx.vout.zipIdx

end CWallet

def filterBits : List isminetype := [ISMINE_SPENDABLE, ISMINE_WATCH_ONLY, ISMINE_COLD, ISMINE_SPENDABLE_DELEGATED]

structure Tally where
  amount : Int := 0
  cached : isminetype → Option Int

variable (filter : isminetype) (compute : isminetype → Option Int)

def addPart (amount : Int) (bit : isminetype) : Option Int :=
  if filter &&& bit = 0 then some amount else (compute bit).map (amount + ·)

/-- The part of a bit, which is computed only where it is not kept already. -/
def addCached (t : Tally) (bit : isminetype) : Option Tally :=
  if filter &&& bit = 0 then some t
  else match t.cached bit with
    | some n => some { t with amount := t.amount + n }
    | none => (compute bit).map fun n => { amount := t.amount + n, cached := Function.update t.cached bit (some n) }

namespace CWalletTx

variable (ctx : SpendContext) (w : CWallet) (wtx : CWalletTx)

def getDebit (filter : isminetype) (cached : isminetype → Option Int) : Option Tally :=
  if wtx.tx.vin.isEmpty then some { cached }
  else filterBits.foldlM (addCached filter (w.getDebit ctx wtx.tx)) { cached }

def getCredit (filter : isminetype) (cached : isminetype → Option Int) : Option Tally :=
  filterBits.foldlM (addCached filter fun bit => w.getCredit ctx wtx.tx bit false) { cached }

def getUnspentCredit (filter : isminetype) : Option Int :=
  if wtx.getBlocksToMaturity ctx > 0 then some 0
  else filterBits.foldlM (addPart filter fun bit => w.getCredit ctx wtx.tx bit true) 0

end CWalletTx

abbrev OwnedValues := List (isminetype × Int)

namespace OwnedValues

variable (network : Network)

variable (filter : isminetype) (parts : OwnedValues)

def total : Int := (parts.map fun p => if p.1 &&& filter ≠ 0 then p.2 else 0).sum

def bothKeys : Int := (parts.map fun p => if p.1 = ISMINE_SPENDABLE_STAKEABLE then p.2 else 0).sum

def ranged (n : Int) : Option Int := if network.consensus.moneyRange n then some n else none

def NoneTwice : Prop :=
  filter &&& ISMINE_SPENDABLE_STAKEABLE = ISMINE_SPENDABLE_STAKEABLE → ∀ p ∈ parts, p.1 = ISMINE_SPENDABLE_STAKEABLE → p.2 = 0

/-- The parts of the bits of a filter together are what the filter selects. Where that is out of range, so must the part of a bit be. -/
def CountsOnce : Prop :=
  if network.consensus.moneyRange (total filter parts) then NoneTwice filter parts
  else ∃ bit ∈ filterBits, filter &&& bit ≠ 0 ∧ network.consensus.moneyRange (total bit parts) = false

end OwnedValues

namespace CWallet

variable (ctx : SpendContext) (w : CWallet) (tx : CTransaction)

def ownedInput (txin : CTxIn) : isminetype × Int :=
  match w.prevOutOf txin with
  | none => (ISMINE_NO, 0)
  | some out => (ctx.isMineScript out.scriptPubKey, out.nValue)

def inputValues : OwnedValues := tx.vin.map (w.ownedInput ctx)

def outputValues (skipped : Nat → Bool) : OwnedValues :=
  (tx.vout.zipIdx.filter fun p => !skipped p.2).map fun p => (ctx.isMineScript p.1.scriptPubKey, p.1.nValue)

/-- What `CheckTransaction` asks of the outputs of every wallet transaction: each value is in range, and so is their sum. -/
def ValuesInRange : Prop :=
  ∀ hash wtx, w.mapWallet.lookup hash = some wtx → (∀ out ∈ wtx.tx.vout, ctx.network.consensus.moneyRange out.nValue = true) ∧
    ctx.network.consensus.moneyRange (wtx.tx.vout.map CTxOut.nValue).sum = true

end CWallet

namespace OwnedValues

variable (network : Network)

theorem total_cons (filter : isminetype) (p : isminetype × Int) (parts : OwnedValues) :
    total filter (p :: parts) = (if p.1 &&& filter ≠ 0 then p.2 else 0) + total filter parts := by
  simp only [total, List.map_cons, List.sum_cons]

variable {parts : OwnedValues} {filter : isminetype}

theorem total_nonneg (filter : isminetype) (nonneg : ∀ p ∈ parts, 0 ≤ p.2) : 0 ≤ total filter parts := by
  unfold total
  apply List.sum_nonneg
  intro n member
  obtain ⟨p, among, rfl⟩ := List.mem_map.mp member
  have := nonneg p among
  split <;> omega

theorem total_le (nonneg : ∀ p ∈ parts, 0 ≤ p.2) (within : ∀ p ∈ parts, p.1 &&& bit ≠ 0 → p.1 &&& filter ≠ 0) :
    total bit parts ≤ total filter parts := by
  induction parts with
  | nil => exact le_refl _
  | cons p parts ih =>
    have rest := ih (fun q among => nonneg q (List.mem_cons_of_mem _ among)) fun q among => within q (List.mem_cons_of_mem _ among)
    have first := nonneg p List.mem_cons_self
    rw [total_cons, total_cons]
    by_cases selected : p.1 &&& bit ≠ 0
    · rw [if_pos selected, if_pos (within p List.mem_cons_self selected)]
      omega
    · rw [if_neg selected]
      split <;> omega

def filters : List isminetype := (filterBits.sublists.map fun bits => bits.foldl (· ||| ·) 0)

theorem contained_filters (contained : filter &&& ISMINE_ALL = filter) : filter ∈ filters := by
  have byNumber : ∀ i : Fin 256, UInt8.ofFin i &&& ISMINE_ALL = UInt8.ofFin i → UInt8.ofFin i ∈ filters := by
    set_option maxRecDepth 4000 in decide
  exact byNumber filter.toFin contained

set_option maxRecDepth 4000 in
theorem times_counted : ∀ own ∈ OwnedScripts.ownerships, ∀ filter ∈ filters,
    filterBits.countP (fun bit => filter &&& bit ≠ 0 && own &&& bit ≠ 0) =
      (if own &&& filter ≠ 0 then 1 else 0) +
        if own = ISMINE_SPENDABLE_STAKEABLE ∧ filter &&& ISMINE_SPENDABLE_STAKEABLE = ISMINE_SPENDABLE_STAKEABLE then 1 else 0 := by
  decide

set_option maxRecDepth 4000 in
theorem bit_within : ∀ own ∈ OwnedScripts.ownerships, ∀ filter ∈ filters, ∀ bit ∈ filterBits, filter &&& bit ≠ 0 → own &&& bit ≠ 0 →
    own &&& filter ≠ 0 := by
  have checked : OwnedScripts.ownerships.all fun own => filters.all fun filter => filterBits.all fun bit =>
      decide (filter &&& bit ≠ 0 → own &&& bit ≠ 0 → own &&& filter ≠ 0) := by decide
  simpa only [List.all_eq_true, decide_eq_true_eq] using checked

def wanted (filter : isminetype) (parts : OwnedValues) (bits : List isminetype) : Int :=
  (bits.map fun bit => if filter &&& bit = 0 then 0 else total bit parts).sum

theorem wanted_nil (filter : isminetype) (bits : List isminetype) : wanted filter [] bits = 0 := by
  unfold wanted
  induction bits with
  | nil => rfl
  | cons bit bits ih =>
    rw [List.map_cons, List.sum_cons, ih]
    split <;> rfl

theorem wanted_cons (filter : isminetype) (p : isminetype × Int) (parts : OwnedValues) (bits : List isminetype) :
    wanted filter (p :: parts) bits =
      (bits.countP fun bit => filter &&& bit ≠ 0 && p.1 &&& bit ≠ 0 : Nat) * p.2 + wanted filter parts bits := by
  unfold wanted
  induction bits with
  | nil => simp
  | cons bit bits ih =>
    rw [List.map_cons, List.sum_cons, ih, List.map_cons, List.sum_cons, List.countP_cons, total_cons]
    by_cases kept : filter &&& bit = 0
    · simp [kept]
    · by_cases own : p.1 &&& bit = 0
      · simp [kept, own]
        omega
      · simp [kept, own, add_mul]
        omega

variable (p : isminetype × Int)

theorem bothKeys_cons (parts : OwnedValues) :
    bothKeys (p :: parts) = (if p.1 = ISMINE_SPENDABLE_STAKEABLE then p.2 else 0) + bothKeys parts := by
  simp only [bothKeys, List.map_cons, List.sum_cons]

theorem count_times (selected stake both : Prop) [Decidable selected] [Decidable stake] [Decidable both] (value total again : Int) :
    (((if selected then 1 else 0) + if stake ∧ both then 1 else 0 : Nat) : Int) * value + (total + if both then again else 0) =
      (if selected then value else 0) + total + if both then (if stake then value else 0) + again else 0 := by
  by_cases kept : selected <;> by_cases twice : both <;> by_cases owned : stake <;>
    simp only [kept, twice, owned, if_true, if_false, and_self, and_true, and_false] <;> push_cast <;> ring

theorem wanted_total (contained : filter ∈ filters) (types : ∀ p ∈ parts, p.1 ∈ OwnedScripts.ownerships) :
    wanted filter parts filterBits = total filter parts +
      if filter &&& ISMINE_SPENDABLE_STAKEABLE = ISMINE_SPENDABLE_STAKEABLE then bothKeys parts else 0 := by
  induction parts with
  | nil =>
    rw [wanted_nil]
    split <;> rfl
  | cons p parts ih =>
    have rest := ih fun q among => types q (List.mem_cons_of_mem _ among)
    rw [wanted_cons, times_counted p.1 (types p List.mem_cons_self) filter contained, rest, total_cons, bothKeys_cons]
    exact count_times _ _ _ p.2 _ _

end OwnedValues

theorem Network.moneyRange_iff (network : Network) (n : Int) :
    network.consensus.moneyRange n = true ↔ 0 ≤ n ∧ n ≤ network.consensus.nMaxMoneyOut := by
  unfold Consensus.Params.moneyRange
  rw [Bool.and_eq_true, decide_eq_true_iff, decide_eq_true_iff]

theorem Network.moneyRange_zero (network : Network) : network.consensus.moneyRange 0 = true := by
  cases network <;> rfl

namespace CWallet

open OwnedValues

variable (ctx : SpendContext) (w : CWallet) (tx : CTransaction)

theorem mem_inputValues (values : w.ValuesInRange ctx) {p : isminetype × Int} (member : p ∈ w.inputValues ctx tx) : 0 ≤ p.2 := by
  obtain ⟨txin, -, rfl⟩ := List.mem_map.mp member
  unfold ownedInput
  split
  · exact le_refl 0
  · next out found =>
    obtain ⟨prev, known, at_n⟩ := Option.bind_eq_some_iff.mp found
    exact ((Network.moneyRange_iff _ _).mp ((values _ prev known).1 out (List.mem_of_getElem? at_n))).1

variable (filter : isminetype)

theorem debitOf_ownedInput (txin : CTxIn) :
    debitOf ctx w filter txin = if (w.ownedInput ctx txin).1 &&& filter ≠ 0 then (w.ownedInput ctx txin).2 else 0 := by
  unfold debitOf ownedInput
  cases w.prevOutOf txin with
  | none => simp
  | some out => rfl

theorem addDebits_total (nonneg : ∀ txin ∈ vin, 0 ≤ (w.ownedInput ctx txin).2)
    (before : ctx.network.consensus.moneyRange nDebit = true) :
    addDebits ctx w filter nDebit vin = ranged ctx.network (nDebit + total filter (vin.map (w.ownedInput ctx))) := by
  induction vin generalizing nDebit with
  | nil =>
    show some nDebit = ranged ctx.network (nDebit + 0)
    unfold ranged
    rw [add_zero, if_pos before]
  | cons txin rest ih =>
    have others := fun t among => nonneg t (List.mem_cons_of_mem txin among)
    unfold addDebits
    rw [List.map_cons, total_cons, ← debitOf_ownedInput, ← add_assoc]
    dsimp only
    cases check : ctx.network.consensus.moneyRange (nDebit + debitOf ctx w filter txin) with
    | true => exact ih others check
    | false =>
      have rest_nonneg : 0 ≤ total filter (rest.map (w.ownedInput ctx)) := by
        apply total_nonneg
        intro p member
        obtain ⟨t, among, rfl⟩ := List.mem_map.mp member
        exact others t among
      have first_nonneg : 0 ≤ debitOf ctx w filter txin := by
        have := nonneg txin List.mem_cons_self
        rw [debitOf_ownedInput]
        split <;> omega
      have outside : ¬ ctx.network.consensus.moneyRange (nDebit + debitOf ctx w filter txin + total filter (rest.map (w.ownedInput ctx))) := by
        intro inRange
        have := (ctx.network.moneyRange_iff _).mp before
        have := (ctx.network.moneyRange_iff _).mp inRange
        have within : ctx.network.consensus.moneyRange (nDebit + debitOf ctx w filter txin) = true :=
          (ctx.network.moneyRange_iff _).mpr ⟨by omega, by omega⟩
        rw [check] at within
        exact Bool.false_ne_true within
      unfold ranged
      rw [if_neg outside]
      rfl

theorem getDebit_total (values : w.ValuesInRange ctx) (filter : isminetype) :
    w.getDebit ctx tx filter = ranged ctx.network (total filter (w.inputValues ctx tx)) := by
  have nonneg : ∀ txin ∈ tx.vin, 0 ≤ (w.ownedInput ctx txin).2 := fun txin among =>
    mem_inputValues ctx w tx values (List.mem_map_of_mem among)
  unfold getDebit
  rw [addDebits_total ctx w filter nonneg (Network.moneyRange_zero _), zero_add]
  rfl

theorem addCredits_total (skipped : Nat → Bool) (values : ∀ p ∈ vout, ctx.network.consensus.moneyRange p.1.nValue = true)
    (nCredit : Int) :
    addCredits ctx filter skipped nCredit vout = ranged ctx.network (nCredit +
      total filter ((vout.filter fun p => !skipped p.2).map fun p => (ctx.isMineScript p.1.scriptPubKey, p.1.nValue))) := by
  induction vout generalizing nCredit with
  | nil =>
    show (if !ctx.network.consensus.moneyRange nCredit then none else some nCredit) = ranged ctx.network (nCredit + 0)
    unfold ranged
    rw [add_zero]
    cases ctx.network.consensus.moneyRange nCredit <;> rfl
  | cons p rest ih =>
    have others := ih fun q among => values q (List.mem_cons_of_mem _ among)
    unfold addCredits
    by_cases skip : skipped p.2
    · rw [if_pos skip, others, List.filter_cons_of_neg (by simp [skip])]
    · have inRange := values p List.mem_cons_self
      rw [if_neg skip, List.filter_cons_of_pos (by simp [skip]), List.map_cons, total_cons]
      unfold creditOf
      rw [inRange, Bool.not_true, if_neg Bool.false_ne_true, Option.bind_some, others, add_assoc]

theorem getCredit_total (values : ∀ out ∈ tx.vout, ctx.network.consensus.moneyRange out.nValue = true) (filter : isminetype)
    (fUnspent : Bool) :
    w.getCredit ctx tx filter fUnspent = ranged ctx.network
      (total filter (outputValues ctx tx fun i => fUnspent && w.isSpent ctx.toWalletContext ⟨tx.hash, i⟩)) := by
  have each : ∀ p ∈ tx.vout.zipIdx, ctx.network.consensus.moneyRange p.1.nValue = true := fun p among =>
    values p.1 (List.fst_mem_of_mem_zipIdx among)
  unfold getCredit outputValues
  rw [addCredits_total ctx filter _ each, zero_add]

end CWallet

theorem addCached_amount {bits : List isminetype} (nodup : bits.Nodup) (t : Tally) (fresh : ∀ bit ∈ bits, t.cached bit = none) :
    (bits.foldlM (addCached filter compute) t).map Tally.amount = bits.foldlM (addPart filter compute) t.amount := by
  induction bits generalizing t with
  | nil => rfl
  | cons bit bits ih =>
    obtain ⟨apart, rest⟩ := List.nodup_cons.mp nodup
    have keep := ih rest t fun b among => fresh b (List.mem_cons_of_mem _ among)
    rw [List.foldlM_cons, List.foldlM_cons]
    unfold addCached addPart
    by_cases skip : filter &&& bit = 0
    · rw [if_pos skip, if_pos skip]
      exact keep
    · rw [if_neg skip, if_neg skip, fresh bit List.mem_cons_self]
      cases compute bit with
      | none => rfl
      | some n =>
        apply ih rest { amount := t.amount + n, cached := Function.update t.cached bit (some n) }
        intro b among
        dsimp only
        have other : b ≠ bit := fun same => apart (same ▸ among)
        rw [Function.update_of_ne other]
        exact fresh b (List.mem_cons_of_mem _ among)

namespace OwnedValues

variable (network : Network)

theorem wanted_step (filter : isminetype) (parts : OwnedValues) (bit : isminetype) (bits : List isminetype) :
    wanted filter parts (bit :: bits) = (if filter &&& bit = 0 then 0 else total bit parts) + wanted filter parts bits := by
  simp only [wanted, List.map_cons, List.sum_cons]

theorem addPart_wanted (filter : isminetype) (parts : OwnedValues) (bits : List isminetype) (n : Int) :
    bits.foldlM (addPart filter fun bit => ranged network (total bit parts)) n =
      if ∀ bit ∈ bits, filter &&& bit ≠ 0 → network.consensus.moneyRange (total bit parts) = true
      then some (n + wanted filter parts bits) else none := by
  induction bits generalizing n with
  | nil => simp [wanted]
  | cons bit bits ih =>
    rw [List.foldlM_cons, wanted_step]
    by_cases skip : filter &&& bit = 0
    · have step : addPart filter (fun bit => ranged network (total bit parts)) n bit = some n := if_pos skip
      rw [step, if_pos skip, zero_add]
      simpa [skip] using ih n
    · have step : addPart filter (fun bit => ranged network (total bit parts)) n bit =
          (ranged network (total bit parts)).map (n + ·) := if_neg skip
      rw [step, if_neg skip]
      by_cases inRange : network.consensus.moneyRange (total bit parts) = true
      · have part : ranged network (total bit parts) = some (total bit parts) := if_pos inRange
        have rest := ih (n + total bit parts)
        rw [part, ← add_assoc]
        simpa [skip, inRange] using rest
      · have part : ranged network (total bit parts) = none := if_neg inRange
        rw [part, if_neg (fun all => inRange (all bit List.mem_cons_self skip))]
        rfl

variable {parts : OwnedValues}

theorem bothKeys_nonneg (nonneg : ∀ p ∈ parts, 0 ≤ p.2) : 0 ≤ bothKeys parts := by
  unfold bothKeys
  apply List.sum_nonneg
  intro n member
  obtain ⟨p, among, rfl⟩ := List.mem_map.mp member
  have := nonneg p among
  split <;> omega

theorem bothKeys_zero (nonneg : ∀ p ∈ parts, 0 ≤ p.2) :
    bothKeys parts = 0 ↔ ∀ p ∈ parts, p.1 = ISMINE_SPENDABLE_STAKEABLE → p.2 = 0 := by
  induction parts with
  | nil => exact ⟨fun _ p among => (List.not_mem_nil among).elim, fun _ => rfl⟩
  | cons p parts ih =>
    have others := fun q among => nonneg q (List.mem_cons_of_mem p among)
    have first := nonneg p List.mem_cons_self
    have rest := bothKeys_nonneg others
    rw [bothKeys_cons, List.forall_mem_cons, ← ih others]
    by_cases stake : p.1 = ISMINE_SPENDABLE_STAKEABLE
    · rw [if_pos stake]
      exact ⟨fun zero => ⟨fun _ => by omega, by omega⟩, fun ⟨zero, others⟩ => by rw [zero stake, others, add_zero]⟩
    · rw [if_neg stake, zero_add]
      exact ⟨fun zero => ⟨fun same => absurd same stake, zero⟩, fun ⟨_, zero⟩ => zero⟩

theorem addPart_countsOnce {filter : isminetype} (contained : filter ∈ filters)
    (types : ∀ p ∈ parts, p.1 ∈ OwnedScripts.ownerships) (nonneg : ∀ p ∈ parts, 0 ≤ p.2) :
    filterBits.foldlM (addPart filter fun bit => ranged network (total bit parts)) 0 = ranged network (total filter parts) ↔
      CountsOnce network filter parts := by
  rw [addPart_wanted, wanted_total contained types, zero_add]
  unfold CountsOnce ranged NoneTwice
  by_cases inRange : network.consensus.moneyRange (total filter parts) = true
  · have bits : ∀ bit ∈ filterBits, filter &&& bit ≠ 0 → network.consensus.moneyRange (total bit parts) = true := by
      intro bit member chosen
      have below := total_le nonneg fun p among => bit_within p.1 (types p among) filter contained bit member chosen
      have := (Network.moneyRange_iff _ _).mp inRange
      have := total_nonneg bit nonneg
      exact (Network.moneyRange_iff _ _).mpr ⟨by omega, by omega⟩
    rw [if_pos bits, if_pos inRange, if_pos inRange, Option.some_inj, ← bothKeys_zero nonneg]
    by_cases both : filter &&& ISMINE_SPENDABLE_STAKEABLE = ISMINE_SPENDABLE_STAKEABLE
    · rw [if_pos both]
      exact ⟨fun equal _ => by omega, fun zero => by rw [zero both, add_zero]⟩
    · rw [if_neg both, add_zero]
      exact ⟨fun _ stake => absurd stake both, fun _ => rfl⟩
  · rw [if_neg inRange, if_neg inRange]
    by_cases bits : ∀ bit ∈ filterBits, filter &&& bit ≠ 0 → network.consensus.moneyRange (total bit parts) = true
    · rw [if_pos bits]
      constructor
      · intro absent
        exact nomatch absent
      · rintro ⟨bit, member, chosen, out⟩
        exact absurd (bits bit member chosen) (by rw [out]; exact Bool.false_ne_true)
    · rw [if_neg bits]
      refine ⟨fun _ => ?_, fun _ => rfl⟩
      by_contra none
      apply bits
      intro bit member chosen
      by_contra out
      exact none ⟨bit, member, chosen, Bool.eq_false_iff.mpr out⟩

end OwnedValues

open OwnedValues

structure CWalletTx.CountedOnce (ctx : SpendContext) (w : CWallet) (wtx : CWalletTx) (filter : isminetype) : Prop where
  debit : (wtx.getDebit ctx w filter fun _ => none).map Tally.amount = w.getDebit ctx wtx.tx filter
  sum : w.getDebit ctx wtx.tx filter = ranged ctx.network (total filter (w.inputValues ctx wtx.tx))
  credit : (wtx.getCredit ctx w filter fun _ => none).map Tally.amount = w.getCredit ctx wtx.tx filter false
  unspent : wtx.getBlocksToMaturity ctx ≤ 0 → wtx.getUnspentCredit ctx w filter = w.getCredit ctx wtx.tx filter true

theorem noneTwice_selected {filter : isminetype} {tx : CTransaction} (skipped : Nat → Bool)
    (none : NoneTwice filter (CWallet.outputValues ctx tx fun _ => false)) :
    NoneTwice filter (CWallet.outputValues ctx tx skipped) := by
  intro both p member
  apply none both p
  obtain ⟨q, among, rfl⟩ := List.mem_map.mp member
  exact List.mem_map.mpr ⟨q, List.mem_filter.mpr ⟨(List.mem_filter.mp among).1, rfl⟩, rfl⟩

theorem filterBits_nodup : filterBits.Nodup := by decide

namespace CWalletTx

variable (ctx : SpendContext) (w : CWallet) (wtx : CWalletTx) (filter : isminetype)

theorem getDebit_amount (values : w.ValuesInRange ctx) :
    (wtx.getDebit ctx w filter fun _ => none).map Tally.amount =
      filterBits.foldlM (addPart filter fun bit => ranged ctx.network (total bit (w.inputValues ctx wtx.tx))) 0 := by
  have parts : w.getDebit ctx wtx.tx = fun bit => ranged ctx.network (total bit (w.inputValues ctx wtx.tx)) :=
    funext fun bit => w.getDebit_total ctx wtx.tx values bit
  unfold getDebit
  by_cases empty : wtx.tx.vin.isEmpty
  · have none : w.inputValues ctx wtx.tx = [] := by rw [CWallet.inputValues, List.isEmpty_iff.mp empty, List.map_nil]
    have inRange : ∀ bit ∈ filterBits, filter &&& bit ≠ 0 → ctx.network.consensus.moneyRange (total bit []) = true :=
      fun _ _ _ => ctx.network.moneyRange_zero
    rw [if_pos empty, none, addPart_wanted, if_pos inRange, wanted_nil]
    rfl
  · rw [if_neg empty, addCached_amount filter _ filterBits_nodup _ fun _ _ => rfl, parts]

theorem getCredit_amount (values : ∀ out ∈ wtx.tx.vout, ctx.network.consensus.moneyRange out.nValue = true) :
    (wtx.getCredit ctx w filter fun _ => none).map Tally.amount =
      filterBits.foldlM (addPart filter fun bit => ranged ctx.network (total bit (CWallet.outputValues ctx wtx.tx fun _ => false))) 0 := by
  have parts : (fun bit => w.getCredit ctx wtx.tx bit false) =
      fun bit => ranged ctx.network (total bit (CWallet.outputValues ctx wtx.tx fun _ => false)) :=
    funext fun bit => w.getCredit_total ctx wtx.tx values bit false
  unfold getCredit
  rw [addCached_amount filter _ filterBits_nodup _ fun _ _ => rfl, parts]

end CWalletTx

namespace CWallet

variable {ctx : SpendContext} {tx : CTransaction}

theorem outputValues_nonneg (values : ∀ out ∈ tx.vout, ctx.network.consensus.moneyRange out.nValue = true) (skipped : Nat → Bool) :
    ∀ p ∈ outputValues ctx tx skipped, 0 ≤ p.2 := by
  intro p member
  obtain ⟨q, among, rfl⟩ := List.mem_map.mp member
  exact ((Network.moneyRange_iff _ _).mp (values q.1 (List.fst_mem_of_mem_zipIdx (List.mem_filter.mp among).1))).1

theorem outputValues_inRange (values : ∀ out ∈ tx.vout, ctx.network.consensus.moneyRange out.nValue = true)
    (sum : ctx.network.consensus.moneyRange (tx.vout.map CTxOut.nValue).sum = true) (skipped : Nat → Bool) (filter : isminetype) :
    ctx.network.consensus.moneyRange (total filter (outputValues ctx tx skipped)) = true := by
  have below : ∀ vout : List (CTxOut × Nat), (∀ p ∈ vout, 0 ≤ p.1.nValue) →
      total filter ((vout.filter fun p => !skipped p.2).map fun p => (ctx.isMineScript p.1.scriptPubKey, p.1.nValue)) ≤
        (vout.map fun p => p.1.nValue).sum := by
    intro vout nonneg
    induction vout with
    | nil => exact le_refl _
    | cons p rest ih =>
      have others := ih fun q among => nonneg q (List.mem_cons_of_mem _ among)
      have first := nonneg p List.mem_cons_self
      rw [List.map_cons, List.sum_cons]
      by_cases skip : skipped p.2
      · rw [List.filter_cons_of_neg (by simp [skip])]
        omega
      · rw [List.filter_cons_of_pos (by simp [skip]), List.map_cons, total_cons]
        dsimp only
        split <;> omega
  have all := below tx.vout.zipIdx fun p among =>
    ((Network.moneyRange_iff _ _).mp (values p.1 (List.fst_mem_of_mem_zipIdx among))).1
  have same : (tx.vout.zipIdx.map fun p => p.1.nValue) = tx.vout.map CTxOut.nValue := by
    show tx.vout.zipIdx.map (CTxOut.nValue ∘ Prod.fst) = _
    rw [← List.map_map, List.zipIdx_map_fst]
  have bound := ((Network.moneyRange_iff _ _).mp sum).2
  have nonneg := total_nonneg filter (outputValues_nonneg values skipped)
  rw [same] at all
  exact (Network.moneyRange_iff _ _).mpr ⟨nonneg, le_trans all bound⟩

end CWallet

namespace CWallet

variable {ctx : SpendContext} (types : ∀ script, ctx.isMineScript script ∈ OwnedScripts.ownerships) {filter : isminetype}
  (contained : filter ∈ filters)

include types

theorem inputValues_types (w : CWallet) (tx : CTransaction) : ∀ p ∈ w.inputValues ctx tx, p.1 ∈ OwnedScripts.ownerships := by
  intro p member
  obtain ⟨txin, -, rfl⟩ := List.mem_map.mp member
  unfold ownedInput
  cases w.prevOutOf txin with
  | none => show ISMINE_NO ∈ OwnedScripts.ownerships; decide
  | some out => exact types _

theorem outputValues_types (tx : CTransaction) (skipped : Nat → Bool) :
    ∀ p ∈ outputValues ctx tx skipped, p.1 ∈ OwnedScripts.ownerships := by
  intro p member
  obtain ⟨q, -, rfl⟩ := List.mem_map.mp member
  exact types _

include contained

theorem outputs_noneTwice {tx : CTransaction} (values : ∀ out ∈ tx.vout, ctx.network.consensus.moneyRange out.nValue = true)
    (sum : ctx.network.consensus.moneyRange (tx.vout.map CTxOut.nValue).sum = true) (skipped : Nat → Bool) :
    filterBits.foldlM (addPart filter fun bit => ranged ctx.network (total bit (outputValues ctx tx skipped))) 0 =
      ranged ctx.network (total filter (outputValues ctx tx skipped)) ↔ NoneTwice filter (outputValues ctx tx skipped) := by
  have once := addPart_countsOnce ctx.network contained (outputValues_types types tx skipped) (outputValues_nonneg values skipped)
  unfold CountsOnce at once
  rwa [if_pos (outputValues_inRange values sum skipped filter)] at once

end CWallet

/-- A transaction counts every coin once exactly where no output is owned with both keys of a cold stake, for filters with both bits,
and no output that it spends, unless the sum over its inputs is out of range and the part of one bit is, too. -/
theorem CWalletTx.amounts_counted_once (keystore : OwnedScripts) (rounds : Nat) (ctx : SpendContext) (w : CWallet)
    (values : w.ValuesInRange ctx) {hash : uint256} {wtx : CWalletTx} (known : w.mapWallet.lookup hash = some wtx)
    {filter : isminetype} (contained : filter &&& ISMINE_ALL = filter) :
    wtx.CountedOnce (ctx.withKeys keystore rounds) w filter ↔
      CountsOnce ctx.network filter (w.inputValues (ctx.withKeys keystore rounds) wtx.tx) ∧
        NoneTwice filter (CWallet.outputValues (ctx.withKeys keystore rounds) wtx.tx fun _ => false) := by
  have isFilter := contained_filters contained
  have values' : w.ValuesInRange (ctx.withKeys keystore rounds) := values
  obtain ⟨each, sum⟩ := values' hash wtx known
  have types : ∀ script, (ctx.withKeys keystore rounds).isMineScript script ∈ OwnedScripts.ownerships := keystore.isMine_ownership rounds
  have network : (ctx.withKeys keystore rounds).network = ctx.network := rfl
  generalize ctx.withKeys keystore rounds = c at *
  have debit := addPart_countsOnce c.network isFilter (CWallet.inputValues_types types w wtx.tx) fun p => w.mem_inputValues c wtx.tx values'
  have credit := CWallet.outputs_noneTwice types isFilter each sum
  rw [← network]
  constructor
  · intro once
    have inputs := once.debit
    have outputs := once.credit
    rw [wtx.getDebit_amount c w filter values', once.sum] at inputs
    rw [wtx.getCredit_amount c w filter each, w.getCredit_total c wtx.tx each] at outputs
    exact ⟨debit.mp inputs, (credit _).mp outputs⟩
  · rintro ⟨inputs, outputs⟩
    have total := w.getDebit_total c wtx.tx values' filter
    refine ⟨?_, total, ?_, ?_⟩
    · rw [wtx.getDebit_amount c w filter values', total]
      exact debit.mpr inputs
    · rw [wtx.getCredit_amount c w filter each, w.getCredit_total c wtx.tx each]
      exact (credit _).mpr outputs
    · intro mature
      unfold CWalletTx.getUnspentCredit
      rw [if_neg (by omega), funext (w.getCredit_total c wtx.tx each · true), w.getCredit_total c wtx.tx each]
      exact (credit _).mpr (noneTwice_selected _ outputs)

def everyKey : OwnedScripts where
  haveKey _ := true
  getCScript _ := none
  haveWatchOnly _ := false
  haveMultiSig _ := false
  getID _ := .filled 1

def delegatedTx : CWalletTx where
  tx :=
    { hash := 0x61, vin := []
      vout := [{ nValue := COIN, scriptPubKey := getScriptForStakeDelegation (.filled 1) (.filled 2) }] }

def delegatingContext : SpendContext where
  mapBlockIndex := ∅
  chainActive := ⟨[], CChain.heights_nil⟩
  inMempool _ := false
  getTransactionLockSignatures _ := 0
  nSwiftTXDepth := 5
  getAdjustedTime := 0
  isMine _ := true
  isFromMe _ := true
  network := .main
  checkFinalTx _ := true
  isFinalTx _ := true
  isMineScript _ := ISMINE_NO
  hasDelegator _ := false
  fMasterNode := false
  bSpendZeroConfChange := true

def delegatingWallet : CWallet where
  mapWallet := (∅ : StdMap uint256 CWalletTx).insert 0x61 delegatedTx

theorem lookup_delegatedTx : delegatingWallet.mapWallet.lookup 0x61 = some delegatedTx := AList.lookup_insert _

theorem delegatingWallet_inRange : delegatingWallet.ValuesInRange delegatingContext := by
  intro hash wtx known
  by_cases same : hash = 0x61
  · subst same
    rw [lookup_delegatedTx] at known
    cases known
    decide
  · have absent : delegatingWallet.mapWallet.lookup hash = none := by
      rw [delegatingWallet, AList.lookup_insert_ne same]
      rfl
    exact nomatch absent.symm.trans known

theorem isMine_delegated : everyKey.isMine 1 (getScriptForStakeDelegation (.filled 1) (.filled 2)) =
    ISMINE_SPENDABLE_STAKEABLE := by
  have watch (script : CScript) : everyKey.watched script = ISMINE_NO := rfl
  unfold OwnedScripts.isMine
  rw [watch, if_neg (fun other => other rfl), CScript.solver_stakeDelegation]
  rfl

theorem delegated_outputs : CWallet.outputValues (delegatingContext.withKeys everyKey 1) delegatedTx.tx (fun _ => false) =
    [(ISMINE_SPENDABLE_STAKEABLE, COIN)] := by
  show [(everyKey.isMine 1 (getScriptForStakeDelegation (.filled 1) (.filled 2)), COIN)] = _
  rw [isMine_delegated]

theorem delegation_counted_once_for_owner : delegatedTx.CountedOnce (delegatingContext.withKeys everyKey 1) delegatingWallet
    (ISMINE_SPENDABLE ||| ISMINE_SPENDABLE_DELEGATED) := by
  apply (CWalletTx.amounts_counted_once everyKey 1 delegatingContext delegatingWallet delegatingWallet_inRange lookup_delegatedTx
    (by decide)).mpr
  constructor
  · intro both
    exact absurd both (by decide)
  · intro both
    exact absurd both (by decide)

/-- An output whose two keys the wallet has counts twice in its credit. -/
theorem delegation_counted_twice : ¬ ∀ (keystore : OwnedScripts) (rounds : Nat) (ctx : SpendContext) (w : CWallet), w.ValuesInRange ctx →
    ∀ (hash : uint256) (wtx : CWalletTx), w.mapWallet.lookup hash = some wtx → ∀ filter : isminetype, filter &&& ISMINE_ALL = filter →
      wtx.CountedOnce (ctx.withKeys keystore rounds) w filter := by
  intro once
  have credit := (once everyKey 1 delegatingContext delegatingWallet delegatingWallet_inRange 0x61 delegatedTx lookup_delegatedTx
    ISMINE_ALL rfl).credit
  have values : ∀ out ∈ delegatedTx.tx.vout, (delegatingContext.withKeys everyKey 1).network.consensus.moneyRange out.nValue = true := by
    decide
  rw [CWalletTx.getCredit_amount _ _ _ _ values, CWallet.getCredit_total _ _ _ values] at credit
  have outputs : CWallet.outputValues (delegatingContext.withKeys everyKey 1) delegatedTx.tx (fun i => false &&
      delegatingWallet.isSpent (delegatingContext.withKeys everyKey 1).toWalletContext ⟨delegatedTx.tx.hash, i⟩) =
      [(ISMINE_SPENDABLE_STAKEABLE, COIN)] := delegated_outputs
  rw [delegated_outputs, outputs] at credit
  have twice : ¬ filterBits.foldlM (addPart ISMINE_ALL fun bit => ranged .main (total bit [(ISMINE_SPENDABLE_STAKEABLE, COIN)])) 0 =
      ranged .main (total ISMINE_ALL [(ISMINE_SPENDABLE_STAKEABLE, COIN)]) := by decide
  exact twice credit

end SchillingCoin
