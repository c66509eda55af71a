import SchillingCoin.Script.Operations
import SchillingCoin.Script.Solver

/-!
The scripts that the templates of `Solver` match, as sequences of operations, and the recognisers of cold staking scripts.
-/

namespace SchillingCoin

namespace CScript

open Operation (plain)

/-- What a template without `OP_PUBKEYS` gives for the operations of a script. -/
def matchOps : List UInt8 → List Operation → Option (List valtype)
  | [], [] => some []
  | opcode2 :: script2, op :: ops =>
    (matchOp opcode2 (op.opcode, op.data, [])).bind fun found => (matchOps script2 ops).map fun later => found ++ later
  | _, _ => none

theorem matchOp_rest (opcode2 opcode : UInt8) (data : valtype) (rest : CScript) :
    matchOp opcode2 (opcode, data, rest) = matchOp opcode2 (opcode, data, []) := rfl

variable {result vSolutions found : List valtype} {opcode2 : UInt8} {script2 : List UInt8}
  {op : Operation}

theorem matchOps_nil_iff : matchOps [] ops = some result ↔ ops = [] ∧ result = [] := by
  cases ops with
  | nil => simp [matchOps, eq_comm]
  | cons op ops => simp [matchOps]

theorem matchOps_cons_iff :
    matchOps (opcode2 :: script2) ops = some result ↔ ∃ op ops' found later, ops = op :: ops' ∧
      matchOp opcode2 (op.opcode, op.data, []) = some found ∧ matchOps script2 ops' = some later ∧ result = found ++ later := by
  cases ops with
  | nil => simp [matchOps]
  | cons op ops =>
    simp only [matchOps, Option.bind_eq_some_iff, Option.map_eq_some_iff]
    constructor
    · rintro ⟨found, here, later, rest, rfl⟩
      exact ⟨op, ops, found, later, rfl, here, rest, rfl⟩
    · rintro ⟨_, _, found, later, same, here, rest, rfl⟩
      obtain ⟨rfl, rfl⟩ := List.cons.inj same
      exact ⟨found, here, later, rest, rfl⟩

theorem matchFrom_cons_iff (notKeys : opcode2 ≠ OP_PUBKEYS) :
    matchFrom (opcode2 :: script2) (opcode, data, rest) vSolutions = some result ↔
      ∃ found, matchOp opcode2 (opcode, data, []) = some found ∧
        ((rest = [] ∧ script2 = [] ∧ result = vSolutions ++ found) ∨
          ∃ next, getOp rest = some next ∧ matchFrom script2 next (vSolutions ++ found) = some result) := by
  rw [matchFrom, if_neg notKeys, matchOp_rest, Option.bind_eq_some_iff]
  apply exists_congr
  intro found
  apply and_congr_right
  intro _
  dsimp only
  split
  · next ended =>
    rw [ended.1, ended.2]
    simp [getOp, eq_comm]
  · next goesOn =>
    rw [Option.bind_eq_some_iff]
    constructor
    · exact Or.inr
    · rintro (⟨isEnd, isLast, _⟩ | found)
      · exact absurd ⟨isEnd, isLast⟩ goesOn
      · exact found

theorem matchFrom_iff (noKeys : OP_PUBKEYS ∉ script2) :
    matchFrom script2 (op.opcode, op.data, rest) vSolutions = some result ↔
      ∃ ops found, rest = assemble ops ∧ matchOps script2 (op :: ops) = some found ∧ result = vSolutions ++ found := by
  induction script2 generalizing op rest vSolutions with
  | nil => simp [matchFrom, matchOps]
  | cons opcode2 script2 ih =>
    obtain ⟨notKeys, noKeys⟩ := not_or.mp (List.mem_cons.not.mp noKeys)
    rw [matchFrom_cons_iff (Ne.symm notKeys)]
    constructor
    · rintro ⟨found, here, ⟨rfl, rfl, rfl⟩ | ⟨next, read, matched⟩⟩
      · refine ⟨[], found, rfl, matchOps_cons_iff.mpr ⟨op, [], found, [], rfl, here, rfl, ?_⟩, rfl⟩
        rw [List.append_nil]
      · obtain ⟨opcode', data', rest'⟩ := next
        obtain ⟨op', rfl, rfl, rfl⟩ := exists_operation read
        obtain ⟨ops, later, rfl, others, rfl⟩ := (ih noKeys).mp matched
        exact ⟨op' :: ops, found ++ later, rfl, matchOps_cons_iff.mpr ⟨op, op' :: ops, found, later, rfl, here, others, rfl⟩,
          List.append_assoc _ _ _⟩
    · rintro ⟨ops, result', rfl, matched, rfl⟩
      obtain ⟨_, ops', found, later, same, here, others, rfl⟩ := matchOps_cons_iff.mp matched
      obtain ⟨rfl, rfl⟩ := List.cons.inj same
      refine ⟨found, here, ?_⟩
      cases ops with
      | nil =>
        cases script2 with
        | nil =>
          obtain ⟨_, rfl⟩ := matchOps_nil_iff.mp others
          exact Or.inl ⟨rfl, rfl, by rw [List.append_nil]⟩
        | cons opcode2' script2 => cases others
      | cons op' ops =>
        exact Or.inr ⟨_, getOp_assemble op' ops, (ih noKeys).mpr ⟨ops, later, rfl, others, (List.append_assoc _ _ _).symm⟩⟩

theorem matchTemplate_iff (noKeys : OP_PUBKEYS ∉ script2) (nonempty : script2 ≠ []) :
    matchTemplate script2 s = some vSolutions ↔ ∃ ops, s = assemble ops ∧ matchOps script2 ops = some vSolutions := by
  rw [matchTemplate, Option.bind_eq_some_iff]
  constructor
  · rintro ⟨⟨opcode, data, rest⟩, read, matched⟩
    obtain ⟨op, rfl, rfl, rfl⟩ := exists_operation read
    obtain ⟨ops, found, rfl, others, rfl⟩ := (matchFrom_iff noKeys).mp matched
    exact ⟨op :: ops, rfl, others⟩
  · rintro ⟨ops, rfl, matched⟩
    cases ops with
    | nil =>
      cases script2 with
      | nil => exact absurd rfl nonempty
      | cons opcode2 script2 => cases matched
    | cons op ops => exact ⟨_, getOp_assemble op ops, (matchFrom_iff noKeys).mpr ⟨ops, vSolutions, rfl, matched, rfl⟩⟩

def isPubKeySize (data : valtype) : Prop := 33 ≤ data.length ∧ data.length ≤ 65

instance (data : valtype) : Decidable (isPubKeySize data) := inferInstanceAs (Decidable (_ ∧ _))

theorem matchOp_plain (noData : isData opcode2 = false) (high : OP_PUSHDATA4 < opcode2) :
    matchOp opcode2 (op.opcode, op.data, []) = some found ↔ op = plain opcode2 high ∧ found = [] := by
  simp only [isData, Bool.or_eq_false_iff, beq_eq_false_iff_ne, ne_eq] at noData
  rw [matchOp, if_neg noData.1.1, if_neg noData.1.2, if_neg noData.2]
  dsimp only
  constructor
  · intro matched
    split at matched
    · cases matched
    · next same =>
      obtain ⟨opcode, data⟩ := not_or.mp same
      exact ⟨Operation.ext (not_not.mp opcode) (not_not.mp data), (Option.some.inj matched).symm⟩
  · rintro ⟨rfl, rfl⟩
    simp [plain]

theorem matchOp_pubKey : matchOp OP_PUBKEY (opcode, data, []) = some found ↔ isPubKeySize data ∧ found = [data] := by
  rw [matchOp, if_pos rfl]
  dsimp only
  unfold isPubKeySize
  split
  · next wrong =>
    constructor
    · intro matched
      cases matched
    · rintro ⟨right, _⟩
      omega
  · next right =>
    rw [Option.some.injEq, eq_comm, iff_and_self]
    intro _
    omega

theorem matchOp_hash : matchOp OP_PUBKEYHASH (opcode, data, []) = some found ↔ data.length = 20 ∧ found = [data] := by
  rw [matchOp, if_neg (by decide), if_pos rfl]
  dsimp only
  split
  · next wrong =>
    constructor
    · intro matched
      cases matched
    · rintro ⟨right, _⟩
      exact absurd right wrong
  · next right =>
    rw [Option.some.injEq, eq_comm, iff_and_self]
    intro _
    exact not_not.mp right

section Steps

variable {script2 : List UInt8} {ops : List Operation} {result : List valtype}

theorem matchOps_plain (noData : isData opcode2 = false) (high : OP_PUSHDATA4 < opcode2) :
    matchOps (opcode2 :: script2) ops = some result ↔ ∃ ops', ops = plain opcode2 high :: ops' ∧ matchOps script2 ops' = some result := by
  rw [matchOps_cons_iff]
  constructor
  · rintro ⟨op, ops', found, later, rfl, here, others, rfl⟩
    obtain ⟨rfl, rfl⟩ := (matchOp_plain noData high).mp here
    exact ⟨ops', rfl, others⟩
  · rintro ⟨ops', rfl, others⟩
    exact ⟨_, ops', [], result, rfl, (matchOp_plain noData high).mpr ⟨rfl, rfl⟩, others, rfl⟩

/-- An opcode that stands for itself in a template. -/
abbrev PlainOpcode := {opcode2 : UInt8 // isData opcode2 = false ∧ OP_PUSHDATA4 < opcode2}

theorem matchOps_plains (plains : List PlainOpcode) : matchOps (plains.map Subtype.val ++ script2) ops = some result ↔
    ∃ ops', ops = plains.map (fun p => plain p.1 p.2.2) ++ ops' ∧ matchOps script2 ops' = some result := by
  induction plains generalizing ops with
  | nil => simp
  | cons p plains ih =>
    rw [List.map_cons, List.cons_append, matchOps_plain p.2.1 p.2.2]
    constructor
    · rintro ⟨ops', rfl, matched⟩
      obtain ⟨rest, rfl, others⟩ := ih.mp matched
      exact ⟨rest, rfl, others⟩
    · rintro ⟨rest, rfl, matched⟩
      exact ⟨_, rfl, ih.mpr ⟨rest, rfl, matched⟩⟩

theorem matchOps_data {size : valtype → Prop}
    (one : ∀ {found opcode data}, matchOp opcode2 (opcode, data, []) = some found ↔ size data ∧ found = [data]) :
    matchOps (opcode2 :: script2) ops = some result ↔
      ∃ op ops' later, ops = op :: ops' ∧ size op.data ∧ matchOps script2 ops' = some later ∧ result = op.data :: later := by
  rw [matchOps_cons_iff]
  constructor
  · rintro ⟨op, ops', found, later, rfl, here, others, rfl⟩
    obtain ⟨fits, rfl⟩ := one.mp here
    exact ⟨op, ops', later, rfl, fits, others, rfl⟩
  · rintro ⟨op, ops', later, rfl, fits, others, rfl⟩
    exact ⟨op, ops', [op.data], later, rfl, one.mpr ⟨fits, rfl⟩, others, rfl⟩

end Steps

def pubKeyOps (key : Operation) : List Operation := [key, plain 0xac (by decide)]

def pubKeyHashOps (hash : Operation) : List Operation :=
  [plain 0x76 (by decide), plain 0xa9 (by decide), hash, plain 0x88 (by decide), plain 0xac (by decide)]

def coldStakeOps (stakingKey spendingKey : Operation) : List Operation :=
  [plain 0x76 (by decide), plain 0xa9 (by decide), plain 0x7b (by decide), plain 0x63 (by decide), plain 0xd1 (by decide), stakingKey,
    plain 0x67 (by decide), spendingKey, plain 0x68 (by decide), plain 0x88 (by decide), plain 0xac (by decide)]

section Whole

variable {s : CScript} {vSolutions : List valtype}

def dupHash : List PlainOpcode := [⟨0x76, by decide⟩, ⟨0xa9, by decide⟩]

def verifyCheck : List PlainOpcode := [⟨0x88, by decide⟩, ⟨0xac, by decide⟩]

theorem matchTemplate_pubKey : matchTemplate [OP_PUBKEY, 0xac] s = some vSolutions ↔
    ∃ key : Operation, isPubKeySize key.data ∧ s = assemble (pubKeyOps key) ∧ vSolutions = [key.data] := by
  rw [matchTemplate_iff (by decide) (by decide)]
  constructor
  · rintro ⟨ops, rfl, matched⟩
    obtain ⟨key, ops, later, rfl, size, check, rfl⟩ := (matchOps_data matchOp_pubKey).mp matched
    obtain ⟨ops, rfl, ended⟩ := (matchOps_plain (by decide) (by decide)).mp check
    obtain ⟨rfl, rfl⟩ := matchOps_nil_iff.mp ended
    exact ⟨key, size, rfl, rfl⟩
  · rintro ⟨key, size, rfl, rfl⟩
    refine ⟨_, rfl, (matchOps_data matchOp_pubKey).mpr ⟨key, _, [], rfl, size, ?_, rfl⟩⟩
    exact (matchOps_plain (by decide) (by decide)).mpr ⟨[], rfl, rfl⟩

theorem matchTemplate_pubKeyHash : matchTemplate [0x76, 0xa9, OP_PUBKEYHASH, 0x88, 0xac] s = some vSolutions ↔
    ∃ hash : Operation, hash.data.length = 20 ∧ s = assemble (pubKeyHashOps hash) ∧ vSolutions = [hash.data] := by
  rw [matchTemplate_iff (by decide) (by decide)]
  constructor
  · rintro ⟨ops, rfl, matched⟩
    obtain ⟨ops, rfl, hashed⟩ := (matchOps_plains dupHash).mp matched
    obtain ⟨hash, ops, later, rfl, size, verified, rfl⟩ := (matchOps_data matchOp_hash).mp hashed
    obtain ⟨ops, rfl, ended⟩ := (matchOps_plains verifyCheck).mp verified
    obtain ⟨rfl, rfl⟩ := matchOps_nil_iff.mp ended
    exact ⟨hash, size, rfl, rfl⟩
  · rintro ⟨hash, size, rfl, rfl⟩
    refine ⟨_, rfl, (matchOps_plains dupHash).mpr ⟨_, rfl, ?_⟩⟩
    refine (matchOps_data matchOp_hash).mpr ⟨hash, _, [], rfl, size, ?_, rfl⟩
    exact (matchOps_plains verifyCheck).mpr ⟨[], rfl, rfl⟩

theorem matchTemplate_coldStake :
    matchTemplate [0x76, 0xa9, 0x7b, 0x63, 0xd1, OP_PUBKEYHASH, 0x67, OP_PUBKEYHASH, 0x68, 0x88, 0xac] s = some vSolutions ↔
      ∃ stakingKey spendingKey : Operation, stakingKey.data.length = 20 ∧ spendingKey.data.length = 20 ∧
        s = assemble (coldStakeOps stakingKey spendingKey) ∧ vSolutions = [stakingKey.data, spendingKey.data] := by
  rw [matchTemplate_iff (by decide) (by decide)]
  constructor
  · rintro ⟨ops, rfl, matched⟩
    obtain ⟨ops, rfl, hashed⟩ := (matchOps_plains (dupHash ++ [⟨0x7b, by decide⟩, ⟨0x63, by decide⟩, ⟨0xd1, by decide⟩])).mp matched
    obtain ⟨stakingKey, ops, _, rfl, staking, chosen, rfl⟩ := (matchOps_data matchOp_hash).mp hashed
    obtain ⟨ops, rfl, owner⟩ := (matchOps_plain (by decide) (by decide)).mp chosen
    obtain ⟨spendingKey, ops, _, rfl, spending, verified, rfl⟩ := (matchOps_data matchOp_hash).mp owner
    obtain ⟨ops, rfl, ended⟩ := (matchOps_plains (⟨0x68, by decide⟩ :: verifyCheck)).mp verified
    obtain ⟨rfl, rfl⟩ := matchOps_nil_iff.mp ended
    exact ⟨stakingKey, spendingKey, staking, spending, rfl, rfl⟩
  · rintro ⟨stakingKey, spendingKey, staking, spending, rfl, rfl⟩
    refine ⟨_, rfl, (matchOps_plains (dupHash ++ [⟨0x7b, by decide⟩, ⟨0x63, by decide⟩, ⟨0xd1, by decide⟩])).mpr ⟨_, rfl, ?_⟩⟩
    refine (matchOps_data matchOp_hash).mpr ⟨stakingKey, _, _, rfl, staking, ?_, rfl⟩
    refine (matchOps_plain (by decide) (by decide)).mpr ⟨_, rfl, ?_⟩
    refine (matchOps_data matchOp_hash).mpr ⟨spendingKey, _, [], rfl, spending, ?_, rfl⟩
    exact (matchOps_plains (⟨0x68, by decide⟩ :: verifyCheck)).mpr ⟨[], rfl, rfl⟩

end Whole

end CScript

end SchillingCoin
