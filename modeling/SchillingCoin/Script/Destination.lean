import SchillingCoin.Script.SolverAccess

/-!
Destinations and their scripts, after `ExtractDestination`, `GetScriptForDestination` and `GetScriptForMultisig` in `standard.cpp`.
-/

namespace SchillingCoin

def CKeyID.ofBytes (vch : valtype) : Option CKeyID := if size : vch.length = 20 then some ⟨vch, size⟩ else none

def getScriptForDestination (key : CKeyID) : CScript := [0x76, 0xa9] ++ CScript.pushData key.bytes ++ [0x88, 0xac]

inductive CTxDestination where
  | noDestination
  | keyID (id : CKeyID)
  | scriptID (id : CKeyID)

def CTxDestination.script : CTxDestination → CScript
  | .noDestination => []
  | .keyID id => getScriptForDestination id
  | .scriptID id => [0xa9] ++ CScript.pushData id.bytes ++ [0x87]

/-- The key identifier of a public key is its hash, which is a parameter. -/
def extractDestination (getID : CPubKey → CKeyID) (scriptPubKey : CScript) (fColdStake : Bool) : Option CTxDestination :=
  match CScript.solver scriptPubKey with
  | some (.TX_PUBKEY, vch :: _) => if isValidPubKey vch then some (.keyID (getID vch)) else none
  | some (.TX_PUBKEYHASH, vch :: _) => (CKeyID.ofBytes vch).map .keyID
  | some (.TX_SCRIPTHASH, vch :: _) => (CKeyID.ofBytes vch).map .scriptID
  | some (.TX_COLDSTAKE, stakingKey :: spendingKey :: _) =>
    (CKeyID.ofBytes (if fColdStake then stakingKey else spendingKey)).map .keyID
  | _ => none

namespace CScript

def encodeOP_N (n : Nat) : Option UInt8 :=
  if n ≤ 16 then some (if n = 0 then 0 else UInt8.ofNat (n + 0x50)) else none

end CScript

def getScriptForMultisig (nRequired : Nat) (keys : List CPubKey) : Option CScript :=
  (CScript.encodeOP_N nRequired).bind fun m => (CScript.encodeOP_N keys.length).map fun n =>
    [m] ++ keys.flatMap CScript.pushData ++ [n, 0xae]

namespace CScript

def pushOp (data : valtype) (short : data.length < 0x4c) : Operation where
  opcode := UInt8.ofNat data.length
  data
  holds := by
    have value : (UInt8.ofNat data.length).toNat = data.length := by
      rw [UInt8.toNat_ofNat']
      omega
    have low : UInt8.ofNat data.length < OP_PUSHDATA1 := by
      rw [UInt8.lt_iff_toNat_lt, value]
      exact short
    rw [CanHold, if_pos low, value]

theorem pushOp_bytes (short : data.length < 0x4c) : (pushOp data short).bytes = pushData data := by
  have value : (UInt8.ofNat data.length).toNat = data.length := by
    rw [UInt8.toNat_ofNat']
    omega
  have low : (pushOp data short).opcode < OP_PUSHDATA1 := by
    rw [UInt8.lt_iff_toNat_lt]
    exact value ▸ short
  rw [Operation.bytes_of_short low, pushData, if_pos short]
  rfl

/-- The operation with which `operator<<` pushes this many bytes. -/
def pushOpcode (size : Nat) : UInt8 :=
  if size < 0x4c then UInt8.ofNat size else if size ≤ 0xff then OP_PUSHDATA1 else if size ≤ 0xffff then OP_PUSHDATA2 else OP_PUSHDATA4

theorem pushOpcode_le (size : Nat) : pushOpcode size ≤ OP_PUSHDATA4 := by
  unfold pushOpcode
  split
  · next short =>
    rw [UInt8.le_iff_toNat_le, UInt8.toNat_ofNat']
    show _ ≤ 0x4e
    omega
  · split
    · decide
    · split <;> decide

theorem exists_pushOperation (small : data.length < 2 ^ 32) :
    ∃ op : Operation, op.bytes = pushData data ∧ op.data = data ∧ op.opcode = pushOpcode data.length := by
  unfold pushData pushOpcode
  by_cases short : data.length < 0x4c
  · rw [if_pos short, if_pos short]
    exact ⟨pushOp data short, by rw [pushOp_bytes, pushData, if_pos short], rfl, rfl⟩
  · rw [if_neg short, if_neg short]
    by_cases one : data.length ≤ 0xff
    · rw [if_pos one, if_pos one]
      have holds : CanHold OP_PUSHDATA1 data := Nat.lt_succ_of_le one
      exact ⟨⟨OP_PUSHDATA1, data, holds⟩, rfl, rfl, rfl⟩
    · rw [if_neg one, if_neg one]
      by_cases two : data.length ≤ 0xffff
      · rw [if_pos two, if_pos two]
        have holds : CanHold OP_PUSHDATA2 data := Nat.lt_succ_of_le two
        exact ⟨⟨OP_PUSHDATA2, data, holds⟩, rfl, rfl, rfl⟩
      · rw [if_neg two, if_neg two]
        have holds : CanHold OP_PUSHDATA4 data := small
        refine ⟨⟨OP_PUSHDATA4, data, holds⟩, ?_, rfl, rfl⟩
        have third : data.length / 256 / 256 = data.length / 0x10000 := Nat.div_div_eq_div_mul _ _ _
        have fourth : data.length / 256 / 256 / 256 = data.length / 0x1000000 := by rw [Nat.div_div_eq_div_mul, Nat.div_div_eq_div_mul]
        rw [Operation.bytes_of_long (show ¬OP_PUSHDATA4 < OP_PUSHDATA1 by decide) (UInt8.le_refl _), ← third, ← fourth]
        rfl

end CScript

theorem isValidPubKey_length (valid : isValidPubKey vch = true) : vch.length = 33 ∨ vch.length = 65 := by
  unfold isValidPubKey at valid
  split at valid
  · cases valid
  · next header _ =>
    simp only [Bool.and_eq_true, bne_iff_ne, beq_iff_eq] at valid
    rw [← valid.2]
    have some_ := valid.1
    unfold pubKeyLen at some_ ⊢
    split
    · exact Or.inl rfl
    · next notCompressed =>
      rw [if_neg notCompressed] at some_
      split
      · exact Or.inr rfl
      · next notFull =>
        rw [if_neg notFull] at some_
        exact absurd rfl some_

theorem CKeyID.ofBytes_bytes (id : CKeyID) : CKeyID.ofBytes id.bytes = some id := by
  rw [CKeyID.ofBytes, dif_pos id.size]

theorem solver_keyID_script (id : CKeyID) : CScript.solver (CTxDestination.keyID id).script = some (.TX_PUBKEYHASH, [id.bytes]) := by
  have short : id.bytes.length < 0x4c := by
    rw [id.size]
    decide
  have script : (CTxDestination.keyID id).script = CScript.assemble (CScript.pubKeyHashOps (CScript.pushOp id.bytes short)) := by
    simp [CTxDestination.script, getScriptForDestination, CScript.pubKeyHashOps, CScript.pushOp_bytes]
  rw [script]
  exact CScript.solver_pubKeyHashOps id.size

theorem extractDestination_script (getID : CPubKey → CKeyID) (fColdStake : Bool) (some_ : dest ≠ .noDestination) :
    extractDestination getID dest.script fColdStake = some dest := by
  cases dest with
  | noDestination => exact absurd rfl some_
  | keyID id => simp only [extractDestination, solver_keyID_script, CKeyID.ofBytes_bytes, Option.map_some]
  | scriptID id =>
    have script : CTxDestination.script (.scriptID id) = 0xa9 :: 0x14 :: (id.bytes ++ [0x87]) := by
      simp [CTxDestination.script, CScript.pushData, id.size]
    have found : CScript.solver (CTxDestination.script (.scriptID id)) = some (.TX_SCRIPTHASH, [id.bytes]) := by
      rw [script]
      refine (CScript.solver_iff ?_).mpr ⟨id.bytes, id.size, rfl, rfl⟩
      intro same
      cases (List.cons.inj same).2
    simp only [extractDestination, found, CKeyID.ofBytes_bytes, Option.map_some]

namespace CScript

theorem encodeOP_N_smallInteger (n : Fin 17) :
    encodeOP_N n = some (smallInteger n).opcode ∧ (smallInteger n).bytes = [(smallInteger n).opcode] := by
  revert n
  decide

theorem pushData_keys (valid : ∀ key ∈ keys, isValidPubKey key = true) :
    ∃ keyOps : List Operation, keyOps.map Operation.data = keys ∧ assemble keyOps = keys.flatMap pushData ∧
      ∀ key ∈ keyOps, isPubKeySize key.data := by
  induction keys with
  | nil => exact ⟨[], rfl, rfl, by simp⟩
  | cons key keys ih =>
    obtain ⟨here, others⟩ := List.forall_mem_cons.mp valid
    obtain ⟨keyOps, data, bytes, sizes⟩ := ih others
    have size := isValidPubKey_length here
    have short : key.length < 0x4c := by omega
    have isKey : isPubKeySize key := by
      unfold isPubKeySize
      omega
    refine ⟨pushOp key short :: keyOps, ?_, ?_, List.forall_mem_cons.mpr ⟨isKey, sizes⟩⟩
    · rw [List.map_cons, data]
      rfl
    · rw [assemble_cons, bytes, pushOp_bytes, List.flatMap_cons]

end CScript

theorem solver_getScriptForMultisig (valid : ∀ key ∈ keys, isValidPubKey key = true) (positive : 1 ≤ nRequired)
    (fewer : nRequired ≤ keys.length) (few : keys.length ≤ 16) :
    ∃ script, getScriptForMultisig nRequired keys = some script ∧
      CScript.solver script = some (.TX_MULTISIG, [UInt8.ofNat nRequired] :: (keys ++ [[UInt8.ofNat keys.length]])) := by
  obtain ⟨keyOps, data, bytes, sizes⟩ := CScript.pushData_keys valid
  have count : keyOps.length = keys.length := by rw [← data, List.length_map]
  obtain ⟨m, isM⟩ : ∃ m : Fin 17, m.val = nRequired := ⟨⟨nRequired, by omega⟩, rfl⟩
  obtain ⟨n, isN⟩ : ∃ n : Fin 17, n.val = keys.length := ⟨⟨keys.length, by omega⟩, rfl⟩
  obtain ⟨encodedM, bytesM⟩ := CScript.encodeOP_N_smallInteger m
  obtain ⟨encodedN, bytesN⟩ := CScript.encodeOP_N_smallInteger n
  have found := CScript.solver_multisigOps (m := m) (n := n) (by omega) (Fin.le_def.mpr (by omega)) (count.trans isN.symm) sizes
  rw [isM] at encodedM found
  rw [isN] at encodedN found
  rw [data] at found
  refine ⟨CScript.assemble (CScript.multisigOps m n keyOps), ?_, found⟩
  rw [getScriptForMultisig, encodedM, encodedN, CScript.multisigOps_bytes, bytes, bytesM, bytesN]
  simp

/-- `Solver` on a script of more than the byte of a mint ends inside the script and its solutions, and finds a type exactly where the
script has its form. -/
theorem solver_standard (getID : CPubKey → CKeyID) :
    (∀ s : CScript, s ≠ [OP_ZEROCOINMINT] → ∃ result, CScript.solverAt s = .ok result ∧
      ∀ type vSolutions, result = some (type, vSolutions) ↔ CScript.HasForm s vSolutions type) ∧
    (∀ dest : CTxDestination, dest ≠ .noDestination → extractDestination getID dest.script false = some dest) ∧
    ∀ (nRequired : Nat) (keys : List CPubKey), (∀ key ∈ keys, isValidPubKey key = true) → 1 ≤ nRequired → nRequired ≤ keys.length →
      keys.length ≤ 16 → ∃ script, getScriptForMultisig nRequired keys = some script ∧
        CScript.solverAt script = .ok (some (.TX_MULTISIG, [UInt8.ofNat nRequired] :: (keys ++ [[UInt8.ofNat keys.length]]))) := by
  refine ⟨?_, ?_, ?_⟩
  · intro s notAlone
    exact ⟨_, CScript.solverAt_eq notAlone, fun _ _ => CScript.solver_iff notAlone⟩
  · intro dest some_
    exact extractDestination_script getID false some_
  · intro nRequired keys valid positive fewer few
    obtain ⟨script, made, found⟩ := solver_getScriptForMultisig valid positive fewer few
    refine ⟨script, made, ?_⟩
    rw [CScript.solverAt_eq, found]
    rintro rfl
    cases found

theorem solver_standard_nullData : ∃ result, CScript.solverAt [OP_RETURN, 0x01, 0x41] = .ok result ∧
    ∀ type vSolutions, result = some (type, vSolutions) ↔ CScript.HasForm [OP_RETURN, 0x01, 0x41] vSolutions type :=
  (solver_standard fun _ => ⟨List.replicate 20 0, rfl⟩).1 [OP_RETURN, 0x01, 0x41] (by decide)

/-- The data that such a script pushes is not among the solutions. -/
theorem nullData_without_solutions :
    [OP_RETURN, 0x01, 0x41] = OP_RETURN :: CScript.assemble [CScript.pushOp [0x41] (by decide)] ∧
      CScript.solverAt [OP_RETURN, 0x01, 0x41] = .ok (some (.TX_NULL_DATA, [])) := by
  decide

end SchillingCoin
