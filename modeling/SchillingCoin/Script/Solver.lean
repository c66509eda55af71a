import Mathlib.Data.List.Forall2
import SchillingCoin.Script.SigOps

/-!
The standard output scripts, after `Solver` in `standard.cpp`: a script is compared with templates, in which some operations
stand for keys, hashes and small numbers.
-/

namespace SchillingCoin

inductive txnouttype where
  | TX_NONSTANDARD | TX_PUBKEY | TX_PUBKEYHASH | TX_SCRIPTHASH | TX_MULTISIG | TX_NULL_DATA | TX_ZEROCOINMINT | TX_COLDSTAKE
  deriving DecidableEq, Repr

def CScript.pushInt (n : Int) : CScript :=
  if n = -1 ∨ (1 ≤ n ∧ n ≤ 16) then [UInt8.ofNat (n + 0x50).toNat]
  else if n = 0 then [0x00]
  else CScript.pushData (CScriptNum.serialize n)

def OP_SMALLINTEGER : UInt8 := 0xfa
def OP_PUBKEYS : UInt8 := 0xfb
def OP_PUBKEYHASH : UInt8 := 0xfd
def OP_PUBKEY : UInt8 := 0xfe

namespace CScript

abbrev ReadOp := UInt8 × valtype × CScript

/-- The loop for `OP_PUBKEYS`: the keys, and the first operation that pushes none. Where no operation is left it is `OP_INVALIDOPCODE`,
which matches nothing. -/
def takePubKeys : Nat → ReadOp → Option (List valtype × ReadOp)
  | 0, _ => none
  | n + 1, op =>
    if op.2.1.length ≥ 33 ∧ op.2.1.length ≤ 65 then
      (getOp op.2.2).bind fun next => (takePubKeys n next).map fun taken => (op.2.1 :: taken.1, taken.2)
    else some ([], op)

/-- What an operation gives for one of a template that is not `OP_PUBKEYS`. -/
def matchOp (opcode2 : UInt8) (op : ReadOp) : Option (List valtype) :=
  if opcode2 = OP_PUBKEY then if op.2.1.length < 33 ∨ op.2.1.length > 65 then none else some [op.2.1]
  else if opcode2 = OP_PUBKEYHASH then if op.2.1.length ≠ 20 then none else some [op.2.1]
  else if opcode2 = OP_SMALLINTEGER then
    if op.1 = 0 ∨ (op.1 ≥ OP_1 ∧ op.1 ≤ OP_16) then some [[UInt8.ofNat (decodeOP_N op.1)]] else none
  else if op.1 ≠ opcode2 ∨ op.2.1 ≠ [] then none
  else some []

/-- The comparison from an operation on. The operations of a template have no data of their own. -/
def matchFrom : List UInt8 → ReadOp → List valtype → Option (List valtype)
  | [], _, _ => none
  | opcode2 :: script2, op, vSolutions =>
    if opcode2 = OP_PUBKEYS then
      (takePubKeys (op.2.2.length + 1) op).bind fun taken => matchFrom script2 taken.2 (vSolutions ++ taken.1)
    else
      (matchOp opcode2 op).bind fun found =>
        if op.2.2 = [] ∧ script2 = [] then some (vSolutions ++ found)
        else (getOp op.2.2).bind fun next => matchFrom script2 next (vSolutions ++ found)

def matchTemplate (script2 : List UInt8) (script1 : CScript) : Option (List valtype) :=
  (getOp script1).bind fun op => matchFrom script2 op []

def mTemplates : List (txnouttype × List UInt8) :=
  [(.TX_PUBKEY, [OP_PUBKEY, 0xac]),
   (.TX_PUBKEYHASH, [0x76, 0xa9, OP_PUBKEYHASH, 0x88, 0xac]),
   (.TX_MULTISIG, [OP_SMALLINTEGER, OP_PUBKEYS, OP_SMALLINTEGER, 0xae]),
   (.TX_COLDSTAKE, [0x76, 0xa9, 0x7b, 0x63, 0xd1, OP_PUBKEYHASH, 0x67, OP_PUBKEYHASH, 0x68, 0x88, 0xac])]

def multisigFits (vSolutions : List valtype) : Bool :=
  match vSolutions.head?.bind List.head?, vSolutions.getLast?.bind List.head? with
  | some m, some n => !(decide (m < 1) || decide (n < 1) || decide (m > n) || vSolutions.length - 2 != n.toNat)
  | _, _ => false

def scanTemplates (script1 : CScript) : List (txnouttype × List UInt8) → Option (txnouttype × List valtype)
  | [] => none
  | (type, script2) :: templates => match matchTemplate script2 script1 with
    | none => scanTemplates script1 templates
    | some vSolutions => if type = .TX_MULTISIG ∧ multisigFits vSolutions = false then none else some (type, vSolutions)

def solver (scriptPubKey : CScript) : Option (txnouttype × List valtype) :=
  if isPayToScriptHash scriptPubKey then some (.TX_SCRIPTHASH, [(scriptPubKey.drop 2).take 20])
  else if isZerocoinMint scriptPubKey then
    if scriptPubKey.length > 150 then none else some (.TX_ZEROCOINMINT, [scriptPubKey.drop 2])
  else if scriptPubKey.head? = some OP_RETURN ∧ isPushOnly (scriptPubKey.drop 1) then some (.TX_NULL_DATA, [])
  else scanTemplates scriptPubKey mTemplates

def Fits (opcode2 : UInt8) (vch : valtype) : Prop :=
  (opcode2 = OP_PUBKEY → 33 ≤ vch.length ∧ vch.length ≤ 65) ∧ (opcode2 = OP_PUBKEYHASH → vch.length = 20)

def isData (opcode2 : UInt8) : Bool := opcode2 == OP_PUBKEY || opcode2 == OP_PUBKEYHASH || opcode2 == OP_SMALLINTEGER

theorem matchOp_fits (h : matchOp opcode2 op = some found) : List.Forall₂ Fits ([opcode2].filter isData) found := by
  have one : ∀ vch, isData opcode2 = true → Fits opcode2 vch → List.Forall₂ Fits ([opcode2].filter isData) [vch] := by
    intro vch data fits
    rw [List.filter_cons_of_pos data]
    exact List.Forall₂.cons fits List.Forall₂.nil
  unfold matchOp at h
  split at h
  · next key =>
    subst key
    split at h
    · cases h
    · next size =>
      obtain rfl := Option.some.inj h
      exact one _ (by decide) ⟨fun _ => by omega, fun other => absurd other (by decide)⟩
  · split at h
    · next hash =>
      subst hash
      split at h
      · cases h
      · next size =>
        obtain rfl := Option.some.inj h
        exact one _ (by decide) ⟨fun other => absurd other (by decide), fun _ => by omega⟩
    · split at h
      · next number =>
        subst number
        split at h
        · obtain rfl := Option.some.inj h
          exact one _ (by decide) ⟨fun other => absurd other (by decide), fun other => absurd other (by decide)⟩
        · cases h
      · next notKey notHash notNumber =>
        split at h
        · cases h
        · obtain rfl := Option.some.inj h
          rw [List.filter_cons_of_neg (by simp [isData, notKey, notHash, notNumber])]
          exact List.Forall₂.nil

variable {vSolutions : List valtype} {s : CScript}

theorem matchFrom_fits (plain : OP_PUBKEYS ∉ script2) (h : matchFrom script2 op vSolutions = some result) :
    ∃ found, result = vSolutions ++ found ∧ List.Forall₂ Fits (script2.filter isData) found := by
  induction script2 generalizing op vSolutions with
  | nil => cases h
  | cons opcode2 script2 ih =>
    obtain ⟨notKeys, plain⟩ := not_or.mp (List.mem_cons.not.mp plain)
    rw [matchFrom, if_neg (Ne.symm notKeys), Option.bind_eq_some_iff] at h
    obtain ⟨here, matched, h⟩ := h
    have fits := matchOp_fits matched
    have parts : (opcode2 :: script2).filter isData = [opcode2].filter isData ++ script2.filter isData := by
      rw [← List.filter_append, List.singleton_append]
    rw [parts]
    split at h
    · next last =>
      obtain rfl := Option.some.inj h
      refine ⟨here, rfl, ?_⟩
      rw [last.2, List.filter_nil, List.append_nil]
      exact fits
    · obtain ⟨next, _, h⟩ := Option.bind_eq_some_iff.mp h
      obtain ⟨later, rfl, rest⟩ := ih plain h
      exact ⟨here ++ later, List.append_assoc _ _ _, List.rel_append fits rest⟩

theorem matchTemplate_fits (plain : OP_PUBKEYS ∉ script2) (h : matchTemplate script2 script1 = some vSolutions) :
    List.Forall₂ Fits (script2.filter isData) vSolutions := by
  obtain ⟨op, _, h⟩ := Option.bind_eq_some_iff.mp h
  obtain ⟨found, rfl, fits⟩ := matchFrom_fits plain h
  exact fits

theorem scanTemplates_mem (h : scanTemplates script1 templates = some (type, vSolutions)) :
    ∃ script2, (type, script2) ∈ templates ∧ matchTemplate script2 script1 = some vSolutions := by
  induction templates with
  | nil => cases h
  | cons template templates ih =>
    obtain ⟨type', script2⟩ := template
    rw [scanTemplates] at h
    split at h
    · obtain ⟨script2', member, matched⟩ := ih h
      exact ⟨script2', List.mem_cons_of_mem _ member, matched⟩
    · next matched =>
      split at h
      · cases h
      · obtain ⟨rfl, rfl⟩ := Prod.mk.inj (Option.some.inj h)
        exact ⟨script2, List.mem_cons_self, matched⟩

theorem solver_scans (h : solver s = some (type, vSolutions))
    (scanned : type = .TX_PUBKEY ∨ type = .TX_PUBKEYHASH ∨ type = .TX_COLDSTAKE) :
    ∃ script2, (type, script2) ∈ mTemplates ∧ matchTemplate script2 s = some vSolutions := by
  unfold solver at h
  split at h
  · obtain ⟨rfl, _⟩ := Prod.mk.inj (Option.some.inj h)
    simp at scanned
  · split at h
    · split at h
      · cases h
      · obtain ⟨rfl, _⟩ := Prod.mk.inj (Option.some.inj h)
        simp at scanned
    · split at h
      · obtain ⟨rfl, _⟩ := Prod.mk.inj (Option.some.inj h)
        simp at scanned
      · exact scanTemplates_mem h

theorem solver_pubKey (h : solver s = some (.TX_PUBKEY, vSolutions)) :
    ∃ key, vSolutions = [key] ∧ 33 ≤ key.length ∧ key.length ≤ 65 := by
  obtain ⟨script2, member, matched⟩ := solver_scans h (Or.inl rfl)
  obtain rfl : script2 = [OP_PUBKEY, 0xac] := by simpa [mTemplates] using member
  have fits : List.Forall₂ Fits [OP_PUBKEY] vSolutions := matchTemplate_fits (by decide) matched
  cases fits with
  | cons own rest =>
    cases rest
    exact ⟨_, rfl, own.1 rfl⟩

theorem solver_pubKeyHash (h : solver s = some (.TX_PUBKEYHASH, vSolutions)) :
    ∃ hash, vSolutions = [hash] ∧ hash.length = 20 := by
  obtain ⟨script2, member, matched⟩ := solver_scans h (Or.inr (Or.inl rfl))
  obtain rfl : script2 = [0x76, 0xa9, OP_PUBKEYHASH, 0x88, 0xac] := by simpa [mTemplates] using member
  have fits : List.Forall₂ Fits [OP_PUBKEYHASH] vSolutions := matchTemplate_fits (by decide) matched
  cases fits with
  | cons own rest =>
    cases rest
    exact ⟨_, rfl, own.2 rfl⟩

theorem solver_coldStake (h : solver s = some (.TX_COLDSTAKE, vSolutions)) :
    ∃ stakingKey spendingKey, vSolutions = [stakingKey, spendingKey] ∧ stakingKey.length = 20 ∧ spendingKey.length = 20 := by
  obtain ⟨script2, member, matched⟩ := solver_scans h (Or.inr (Or.inr rfl))
  obtain rfl : script2 = [0x76, 0xa9, 0x7b, 0x63, 0xd1, OP_PUBKEYHASH, 0x67, OP_PUBKEYHASH, 0x68, 0x88, 0xac] := by
    simpa [mTemplates] using member
  have fits : List.Forall₂ Fits [OP_PUBKEYHASH, OP_PUBKEYHASH] vSolutions := matchTemplate_fits (by decide) matched
  cases fits with
  | cons staking rest =>
    cases rest with
    | cons spending rest =>
      cases rest
      exact ⟨_, _, rfl, staking.2 rfl, spending.2 rfl⟩

section Matching

variable {opcode opcode2 : UInt8} {script2 : List UInt8} {pc : CScript} {vSolutions : List valtype}

theorem matchOp_same (plain : isData opcode = false) : matchOp opcode (opcode, [], pc) = some [] := by
  simp only [isData, Bool.or_eq_false_iff, beq_eq_false_iff_ne, ne_eq] at plain
  unfold matchOp
  rw [if_neg plain.1.1, if_neg plain.1.2, if_neg plain.2, if_neg (by simp)]

theorem matchFrom_same (plain : isData opcode = false) (notKeys : opcode ≠ OP_PUBKEYS) :
    matchFrom (opcode :: opcode2 :: script2) (opcode, [], pc) vSolutions =
      (getOp pc).bind fun next => matchFrom (opcode2 :: script2) next vSolutions := by
  rw [matchFrom, if_neg notKeys, matchOp_same plain, Option.bind_some, if_neg (by simp), List.append_nil]

theorem matchFrom_hash {hash : valtype} (size : hash.length = 20) :
    matchFrom (OP_PUBKEYHASH :: opcode2 :: script2) (opcode, hash, pc) vSolutions =
      (getOp pc).bind fun next => matchFrom (opcode2 :: script2) next (vSolutions ++ [hash]) := by
  have matched : matchOp OP_PUBKEYHASH (opcode, hash, pc) = some [hash] := by
    unfold matchOp
    rw [if_neg (by decide), if_pos rfl, if_neg (not_not.mpr size)]
  rw [matchFrom, if_neg (by decide), matched, Option.bind_some, if_neg (by simp)]

theorem matchFrom_last (plain : isData opcode = false) (notKeys : opcode ≠ OP_PUBKEYS) :
    matchFrom [opcode] (opcode, [], []) vSolutions = some vSolutions := by
  rw [matchFrom, if_neg notKeys, matchOp_same plain, Option.bind_some, if_pos ⟨rfl, rfl⟩, List.append_nil]

end Matching

theorem solver_stakeDelegation (a b : CKeyID) : solver (getScriptForStakeDelegation a b) = some (.TX_COLDSTAKE, [a.bytes, b.bytes]) := by
  have bytes : getScriptForStakeDelegation a b =
      0x76 :: 0xa9 :: 0x7b :: 0x63 :: 0xd1 :: 0x14 :: (a.bytes ++ 0x67 :: 0x14 :: (b.bytes ++ [0x68, 0x88, 0xac])) := by
    simp [getScriptForStakeDelegation, CScript.pushData, a.size, b.size]
  have read : ∀ opcode ∈ [0x76, 0xa9, 0x7b, 0x63, 0xd1, 0x67, 0x68, 0x88, (0xac : UInt8)], ∀ pc, getOp (opcode :: pc) = some (opcode, [], pc) := by
    intro opcode member pc
    have all_ : [0x76, 0xa9, 0x7b, 0x63, 0xd1, 0x67, 0x68, 0x88, (0xac : UInt8)].all (fun opcode => !decide (opcode ≤ OP_PUSHDATA4)) = true := by
      decide
    exact getOp_plain (by simpa using List.all_eq_true.mp all_ opcode member) pc
  have push : ∀ (key : CKeyID) (pc : CScript), getOp (0x14 :: (key.bytes ++ pc)) = some (0x14, key.bytes, pc) := fun key pc =>
    @getOp_push 0x14 key.bytes (by decide) key.size.symm pc
  have noKey : matchTemplate [OP_PUBKEY, 0xac] (getScriptForStakeDelegation a b) = none := by
    rw [bytes, matchTemplate, read 0x76 (by decide)]
    rfl
  have noHash : matchTemplate [0x76, 0xa9, OP_PUBKEYHASH, 0x88, 0xac] (getScriptForStakeDelegation a b) = none := by
    rw [bytes, matchTemplate, read 0x76 (by decide), Option.bind_some, matchFrom_same (by decide) (by decide), read 0xa9 (by decide),
      Option.bind_some, matchFrom_same (by decide) (by decide), read 0x7b (by decide)]
    rfl
  have noMultisig : matchTemplate [OP_SMALLINTEGER, OP_PUBKEYS, OP_SMALLINTEGER, 0xae] (getScriptForStakeDelegation a b) = none := by
    rw [bytes, matchTemplate, read 0x76 (by decide)]
    rfl
  have matched : matchTemplate [0x76, 0xa9, 0x7b, 0x63, 0xd1, OP_PUBKEYHASH, 0x67, OP_PUBKEYHASH, 0x68, 0x88, 0xac]
      (getScriptForStakeDelegation a b) = some [a.bytes, b.bytes] := by
    rw [bytes, matchTemplate, read 0x76 (by decide), Option.bind_some]
    rw [matchFrom_same (by decide) (by decide), read 0xa9 (by decide), Option.bind_some]
    rw [matchFrom_same (by decide) (by decide), read 0x7b (by decide), Option.bind_some]
    rw [matchFrom_same (by decide) (by decide), read 0x63 (by decide), Option.bind_some]
    rw [matchFrom_same (by decide) (by decide), read 0xd1 (by decide), Option.bind_some]
    rw [matchFrom_same (by decide) (by decide), push a, Option.bind_some, matchFrom_hash a.size, read 0x67 (by decide), Option.bind_some]
    rw [matchFrom_same (by decide) (by decide), push b, Option.bind_some, matchFrom_hash b.size, read 0x68 (by decide), Option.bind_some]
    rw [matchFrom_same (by decide) (by decide), read 0x88 (by decide), Option.bind_some]
    rw [matchFrom_same (by decide) (by decide), read 0xac (by decide), Option.bind_some]
    exact matchFrom_last (by decide) (by decide)
  unfold solver
  rw [if_neg (by simp [bytes, isPayToScriptHash]), if_neg (by simp [bytes, isZerocoinMint, startsWithOpcode, OP_ZEROCOINMINT]),
    if_neg (by simp [bytes, OP_RETURN])]
  simp only [mTemplates, scanTemplates, noKey, noHash, noMultisig, matched, reduceCtorEq, false_and, if_false]

end CScript

end SchillingCoin
