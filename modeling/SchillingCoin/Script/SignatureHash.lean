import Mathlib.Data.List.Induction
import SchillingCoin.Primitives.Wire
import SchillingCoin.Script.Deletion
import SchillingCoin.Script.Iterators

/-!
The message that a signature signs, after `CTransactionSignatureSerializer` and `SignatureHash`, and the algorithm of
`SignatureHashOld`, which edits a copy of the transaction. `Hash` is a parameter.
-/

namespace SchillingCoin

open Codec DataStream Wire

def UINT256_ONE : uint256 := 1

def OP_CODESEPARATOR : UInt8 := 0xab

def SIGHASH_NONE : BitVec 32 := 2
def SIGHASH_SINGLE : BitVec 32 := 3
def SIGHASH_ANYONECANPAY : BitVec 32 := 0x80

namespace CScript

def countCodeSeparators (scriptCode : CScript) : Nat → Nat → Nat → Except Fault Nat
  | 0, _, _ => .error .unfinished
  | rounds + 1, it, nCodeSeparators =>
    (getOp2 scriptCode it).bind fun r =>
      if r.found = false then .ok nCodeSeparators
      else countCodeSeparators scriptCode rounds r.pc (if r.opcode = OP_CODESEPARATOR then nCodeSeparators + 1 else nCodeSeparators)

def writeSlices (scriptCode : CScript) : Nat → Nat → Nat → Except Fault Writes
  | 0, _, _ => .error .unfinished
  | rounds + 1, it, itBegin =>
    (getOp2 scriptCode it).bind fun r =>
      if r.found = false then
        if itBegin ≠ scriptCode.length then (Access.range scriptCode itBegin r.pc).map fun slice => [slice] else .ok []
      else if r.opcode = OP_CODESEPARATOR then
        (Access.range scriptCode itBegin (r.pc - 1)).bind fun slice =>
          (writeSlices scriptCode rounds r.pc r.pc).map fun writes => slice :: writes
      else writeSlices scriptCode rounds r.pc itBegin

def serializeScriptCode (scriptCode : CScript) : Except Fault Writes :=
  (countCodeSeparators scriptCode (scriptCode.length + 1) 0 0).bind fun nCodeSeparators =>
    (writeSlices scriptCode (scriptCode.length + 1) 0 0).map fun slices =>
      writeCompactSize (scriptCode.length - nCodeSeparators) ++ slices

inductive Parses : CScript → Prop where
  | ended : Parses []
  | operation {scriptCode rest : CScript} {opcode : UInt8} {data : valtype} (read : getOp scriptCode = some (opcode, data, rest))
    (parses : Parses rest) : Parses scriptCode

end CScript

def serializeEach (serialize : Nat → Except Fault Writes) : Nat → Except Fault Writes
  | 0 => .ok []
  | n + 1 => (serializeEach serialize n).bind fun before => (serialize n).map fun writes => before ++ writes

structure CTransactionSignatureSerializer where
  txTo : CTransaction
  scriptCode : CScript
  nIn : Nat
  fAnyoneCanPay : Bool
  fHashSingle : Bool
  fHashNone : Bool

namespace CTransactionSignatureSerializer

def ofHashType (txTo : CTransaction) (scriptCode : CScript) (nIn : Nat) (nHashType : BitVec 32) : CTransactionSignatureSerializer where
  txTo
  scriptCode
  nIn
  fAnyoneCanPay := nHashType &&& SIGHASH_ANYONECANPAY ≠ 0
  fHashSingle := nHashType &&& 0x1f = SIGHASH_SINGLE
  fHashNone := nHashType &&& 0x1f = SIGHASH_NONE

variable (ser : CTransactionSignatureSerializer)

/-- The input at `nInput`, which is the one that is signed or another one. -/
def serializeInputAt (nInput : Nat) : Except Fault Writes :=
  (Access.element ser.txTo.vin nInput).bind fun txin =>
    (if nInput ≠ ser.nIn then .ok (serializeBytes []) else ser.scriptCode.serializeScriptCode).map fun script =>
      serializeOutPoint txin.prevout ++ script ++
        [if nInput ≠ ser.nIn ∧ (ser.fHashSingle || ser.fHashNone) = true then intBytes 4 0 else leBytes 4 txin.nSequence]

def serializeInput (nInput : Nat) : Except Fault Writes :=
  if ser.fAnyoneCanPay then ser.serializeInputAt ser.nIn else ser.serializeInputAt nInput

def serializeOutput (nOutput : Nat) : Except Fault Writes :=
  if ser.fHashSingle = true ∧ nOutput ≠ ser.nIn then .ok (serializeTxOut CTxOut.null)
  else (Access.element ser.txTo.vout nOutput).map serializeTxOut

def nInputs : Nat := if ser.fAnyoneCanPay then 1 else ser.txTo.vin.length

def nOutputs : Nat := if ser.fHashNone then 0 else if ser.fHashSingle then ser.nIn + 1 else ser.txTo.vout.length

def serialize : Except Fault Writes :=
  (serializeEach ser.serializeInput ser.nInputs).bind fun inputs =>
    (serializeEach ser.serializeOutput ser.nOutputs).map fun outputs =>
      intBytes 4 ser.txTo.nVersion :: (writeCompactSize ser.nInputs ++ inputs) ++ (writeCompactSize ser.nOutputs ++ outputs) ++
        [leBytes 4 ser.txTo.nLockTime]

end CTransactionSignatureSerializer

variable (scriptCode : CScript) (txTo : CTransaction) (nIn : Nat) (nHashType : BitVec 32)

/-- The bytes that `SignatureHash` hashes. There are none where it returns one. -/
def signatureMessage : Except Fault (Option (List UInt8)) :=
  if nIn ≥ txTo.vin.length then .ok none
  else if nHashType &&& 0x1f = SIGHASH_SINGLE ∧ nIn ≥ txTo.vout.length then .ok none
  else (CTransactionSignatureSerializer.ofHashType txTo scriptCode nIn nHashType).serialize.map fun txTmp =>
    some (Writes.bytes (txTmp ++ [leBytes 4 nHashType.toNat]))

def signatureHash (hash256 : List UInt8 → uint256) (scriptCode : CScript) (txTo : CTransaction) (nIn : Nat) (nHashType : BitVec 32) :
    Except Fault uint256 :=
  (signatureMessage scriptCode txTo nIn nHashType).map fun message => message.elim UINT256_ONE hash256

structure CMutableTransaction where
  nVersion : Int
  vin : List CTxIn
  vout : List CTxOut
  nLockTime : Nat

namespace CMutableTransaction

def ofTransaction (tx : CTransaction) : CMutableTransaction := ⟨tx.nVersion, tx.vin, tx.vout, tx.nLockTime⟩

def serialize (tx : CMutableTransaction) : Writes :=
  intBytes 4 tx.nVersion :: serializeVector serializeTxIn tx.vin ++ serializeVector serializeTxOut tx.vout ++ [leBytes 4 tx.nLockTime]

/-- Every script is cleared, and the one at `nIn` is the script code. -/
def blankScripts (scriptCode : CScript) (nIn : Nat) (vin : List CTxIn) : List CTxIn :=
  (vin.map fun txin => { txin with scriptSig := [] }).modify nIn fun txin => { txin with scriptSig := scriptCode }

variable (nIn : Nat) (vin : List CTxIn)

def zeroSequences : List CTxIn :=
  vin.mapIdx fun i txin => if i ≠ nIn then { txin with nSequence := 0 } else txin

/-- `vout.resize(nOut+1)` for a longer `vout`, and the loop that clears the outputs before the last one. -/
def blankOutputs (nOut : Nat) (vout : List CTxOut) : List CTxOut :=
  (vout.take (nOut + 1)).mapIdx fun i txout => if i < nOut then CTxOut.null else txout

/-- The input at `nIn` is moved to the front, and the others are cut off. -/
def onlyInput : List CTxIn := (vin.set 0 (vin.getD nIn { prevout := COutPoint.null })).take 1

end CMutableTransaction

open CMutableTransaction in
def finishMessageOld (txTmp : CMutableTransaction) : List UInt8 :=
  ((if nHashType &&& SIGHASH_ANYONECANPAY ≠ 0 then { txTmp with vin := onlyInput nIn txTmp.vin } else txTmp).serialize ++
    [leBytes 4 nHashType.toNat]).bytes

open CMutableTransaction in
def signatureMessageOld : Option (List UInt8) :=
  if nIn ≥ txTo.vin.length then none
  else
    let vin := blankScripts (CScript.findAndDelete scriptCode [OP_CODESEPARATOR]) nIn txTo.vin
    let txTmp := { ofTransaction txTo with vin }
    if nHashType &&& 0x1f = SIGHASH_NONE then
      some (finishMessageOld nIn nHashType { txTmp with vout := [], vin := zeroSequences nIn vin })
    else if nHashType &&& 0x1f = SIGHASH_SINGLE then
      if nIn ≥ txTo.vout.length then none
      else some (finishMessageOld nIn nHashType { txTmp with vout := blankOutputs nIn txTo.vout, vin := zeroSequences nIn vin })
    else some (finishMessageOld nIn nHashType txTmp)

def signatureHashOld (hash256 : List UInt8 → uint256) (scriptCode : CScript) (txTo : CTransaction) (nIn : Nat) (nHashType : BitVec 32) : uint256 :=
  (signatureMessageOld scriptCode txTo nIn nHashType).elim UINT256_ONE hash256

namespace CScript

open Access

theorem parses_iff {scriptCode : CScript} : Parses scriptCode ↔ ∃ ops, scriptCode = assemble ops := by
  constructor
  · intro parses
    induction parses with
    | ended => exact ⟨[], rfl⟩
    | operation read _ ih =>
      obtain ⟨op, -, -, rfl⟩ := exists_operation read
      obtain ⟨ops, rfl⟩ := ih
      exact ⟨op :: ops, rfl⟩
  · rintro ⟨ops, rfl⟩
    induction ops with
    | nil => exact .ended
    | cons op ops ih => exact .operation (getOp_assemble op ops) ih

def withoutSeparators (ops : List Operation) : List Operation := ops.filter fun op => op.opcode ≠ OP_CODESEPARATOR

variable {op : Operation} {s : CScript} {it : Nat} {ops : List Operation}

theorem withoutSeparators_drop (separator : op.opcode = OP_CODESEPARATOR) (ops : List Operation) :
    withoutSeparators (op :: ops) = withoutSeparators ops := by
  rw [withoutSeparators, List.filter_cons_of_neg (by simpa using separator)]
  rfl

theorem withoutSeparators_keep (other : op.opcode ≠ OP_CODESEPARATOR) (ops : List Operation) :
    withoutSeparators (op :: ops) = op :: withoutSeparators ops := by
  rw [withoutSeparators, List.filter_cons_of_pos (by simpa using other)]
  rfl

theorem bytes_of_separator (separator : op.opcode = OP_CODESEPARATOR) : op.bytes = [OP_CODESEPARATOR] := by
  rw [Operation.bytes_of_high (by rw [separator]; decide), separator]

theorem getOp2_operation (inside : it ≤ s.length) (here : s.drop it = assemble (op :: ops)) :
    ∃ r, getOp2 s it = .ok r ∧ r.found = true ∧ r.opcode = op.opcode ∧ r.pc = it + op.bytes.length ∧ r.pc ≤ s.length ∧
      s.drop r.pc = assemble ops := by
  obtain ⟨r, read, reads⟩ := getOp2_reads inside
  have operation := getOp_assemble op ops
  rw [← here] at operation
  have found : r.found = true := by
    by_contra missing
    have nothing := (reads.nothing (by simpa using missing)).1
    rw [operation] at nothing
    cases nothing
  obtain ⟨opcode, -, rest⟩ : op.opcode = r.opcode ∧ op.data = r.data ∧ assemble ops = s.drop r.pc := by
    simpa [operation] using (reads.operation found).2
  have length : (s.drop it).length = op.bytes.length + (s.drop r.pc).length := by
    rw [here, ← rest, assemble_cons, List.length_append]
  have within := reads.inside
  rw [List.length_drop, List.length_drop] at length
  exact ⟨r, read, found, opcode.symm, by omega, within, rest.symm⟩

theorem getOp2_end (inside : it ≤ s.length) (here : s.drop it = []) :
    getOp2 s it = .ok (notFound it) ∧ it = s.length := by
  have ended : s.length ≤ it := List.drop_eq_nil_iff.mp here
  exact ⟨by rw [getOp2, if_pos ended], by omega⟩

theorem countCodeSeparators_eq (n : Nat) (inside : it ≤ s.length) (here : s.drop it = assemble ops)
    (enough : ops.length < rounds) :
    ∃ count, countCodeSeparators s rounds it n = .ok (n + count) ∧
      (assemble ops).length = (assemble (withoutSeparators ops)).length + count := by
  induction ops generalizing rounds it n with
  | nil =>
    obtain ⟨rounds, rfl⟩ : ∃ m, rounds = m + 1 := ⟨rounds - 1, by omega⟩
    refine ⟨0, ?_, rfl⟩
    rw [countCodeSeparators, (getOp2_end inside here).1]
    rfl
  | cons op ops ih =>
    obtain ⟨rounds, rfl⟩ : ∃ m, rounds = m + 1 := ⟨rounds - 1, by omega⟩
    obtain ⟨r, read, found, opcode, -, within, rest⟩ := getOp2_operation inside here
    have fewer : ops.length < rounds := Nat.lt_of_succ_lt_succ enough
    rw [countCodeSeparators, read]
    dsimp only [Except.bind]
    rw [if_neg (by simp [found]), opcode]
    by_cases separator : op.opcode = OP_CODESEPARATOR
    · obtain ⟨count, counted, length⟩ := ih (n + 1) within rest fewer
      refine ⟨count + 1, ?_, ?_⟩
      · rw [if_pos separator, counted, Nat.add_assoc, Nat.add_comm 1]
      · rw [withoutSeparators_drop separator, assemble_cons, List.length_append, length, bytes_of_separator separator, List.length_singleton]
        omega
    · obtain ⟨count, counted, length⟩ := ih n within rest fewer
      refine ⟨count, by rw [if_neg separator, counted], ?_⟩
      rw [withoutSeparators_keep separator, assemble_cons, assemble_cons, List.length_append, List.length_append, length]
      omega

theorem writeSlices_eq (begun : itBegin ≤ it) (inside : it ≤ s.length) (here : s.drop it = assemble ops)
    (enough : ops.length < rounds) :
    ∃ slices, writeSlices s rounds it itBegin = .ok slices ∧
      slices.bytes = (s.drop itBegin).take (it - itBegin) ++ assemble (withoutSeparators ops) := by
  induction ops generalizing rounds it itBegin with
  | nil =>
    obtain ⟨rounds, rfl⟩ : ∃ m, rounds = m + 1 := ⟨rounds - 1, by omega⟩
    obtain ⟨read, ended⟩ := getOp2_end inside here
    rw [writeSlices, read]
    dsimp only [Except.bind]
    rw [if_pos (show (notFound it).found = false from rfl)]
    by_cases more : itBegin ≠ s.length
    · rw [if_pos more, show (notFound it).pc = it from rfl, range_ok begun inside]
      refine ⟨_, rfl, ?_⟩
      rw [Writes.bytes_cons]
      rfl
    · rw [if_neg more]
      refine ⟨_, rfl, ?_⟩
      have nothing : it - itBegin = 0 := by omega
      rw [nothing, List.take_zero]
      rfl
  | cons op ops ih =>
    obtain ⟨rounds, rfl⟩ : ∃ m, rounds = m + 1 := ⟨rounds - 1, by omega⟩
    obtain ⟨r, read, found, opcode, next, within, rest⟩ := getOp2_operation inside here
    have fewer : ops.length < rounds := Nat.lt_of_succ_lt_succ enough
    rw [writeSlices, read]
    dsimp only [Except.bind]
    rw [if_neg (by simp [found]), opcode]
    by_cases separator : op.opcode = OP_CODESEPARATOR
    · have size : op.bytes.length = 1 := by rw [bytes_of_separator separator, List.length_singleton]
      obtain ⟨slices, written, bytes⟩ := ih (Nat.le_refl r.pc) within rest fewer
      have last : r.pc - 1 = it := by omega
      rw [if_pos separator, last, range_ok begun inside, written]
      refine ⟨_, rfl, ?_⟩
      rw [Writes.bytes_cons, bytes, withoutSeparators_drop separator, Nat.sub_self, List.take_zero, List.nil_append]
    · obtain ⟨slices, written, bytes⟩ := ih (show itBegin ≤ r.pc by omega) within rest fewer
      rw [if_neg separator]
      refine ⟨slices, written, ?_⟩
      have grown : (s.drop itBegin).take (r.pc - itBegin) = (s.drop itBegin).take (it - itBegin) ++ op.bytes := by
        have split : r.pc - itBegin = it - itBegin + op.bytes.length := by omega
        have there : itBegin + (it - itBegin) = it := by omega
        rw [split, List.take_add, List.drop_drop, there, here, assemble_cons, List.take_left]
      rw [bytes, grown, withoutSeparators_keep separator, assemble_cons, List.append_assoc]

theorem serializeScriptCode_eq (ops : List Operation) :
    ∃ script, serializeScriptCode (assemble ops) = .ok script ∧
      script.bytes = (serializeBytes (assemble (withoutSeparators ops))).bytes := by
  have enough := Nat.lt_succ_of_le (length_le_assemble ops)
  obtain ⟨count, counted, length⟩ := countCodeSeparators_eq 0 (Nat.zero_le _) (List.drop_zero (l := assemble ops)) enough
  obtain ⟨slices, written, bytes⟩ := writeSlices_eq (Nat.le_refl 0) (Nat.zero_le _) (List.drop_zero (l := assemble ops)) enough
  have size : (assemble ops).length - (0 + count) = (assemble (withoutSeparators ops)).length := by omega
  rw [serializeScriptCode, counted, written]
  refine ⟨_, rfl, ?_⟩
  rw [Writes.bytes_append, bytes, size, bytes_serializeBytes]
  rfl

theorem findAndDelete_separators (ops : List Operation) :
    findAndDelete (assemble ops) [OP_CODESEPARATOR] = assemble (withoutSeparators ops) := by
  obtain ⟨separator, code⟩ : ∃ separator : Operation, separator.opcode = OP_CODESEPARATOR := ⟨.plain OP_CODESEPARATOR (by decide), rfl⟩
  have high : OP_PUSHDATA4 < separator.opcode := by
    rw [code]
    decide
  rw [← bytes_of_separator code, findAndDelete_operation, withoutSeparators]
  congr 1
  refine List.filter_congr fun op _ => decide_eq_decide.mpr (not_congr ?_)
  constructor
  · rintro rfl
    exact code
  · intro same
    refine Operation.ext (same.trans code.symm) ?_
    rw [Operation.data_nil high, Operation.data_nil (by rw [same, ← code]; exact high)]

end CScript

theorem serializeEach_ok {serialize : Nat → Except Fault Writes} {reference : α → Writes} {v : List α}
    (each : ∀ i a, v[i]? = some a → ∃ writes, serialize i = .ok writes ∧ writes.bytes = (reference a).bytes) :
    ∃ writes, serializeEach serialize v.length = .ok writes ∧ writes.bytes = Writes.bytes (v.flatMap reference) := by
  induction v using List.reverseRecOn with
  | nil => exact ⟨[], rfl, rfl⟩
  | append_singleton v a ih =>
    obtain ⟨before, serialized, bytes⟩ := ih fun i b there => by
      have inside := (List.getElem?_eq_some_iff.mp there).1
      exact each i b (by rw [List.getElem?_append_left inside, there])
    obtain ⟨writes, last, bytes'⟩ := each v.length a (by simp)
    have length : (v ++ [a]).length = v.length + 1 := by simp
    rw [length, serializeEach, serialized, last]
    refine ⟨_, rfl, ?_⟩
    rw [Writes.bytes_append, bytes, bytes', List.flatMap_append, Writes.bytes_append, List.flatMap_cons, List.flatMap_nil, List.append_nil]

namespace CTransactionSignatureSerializer

variable (ser : CTransactionSignatureSerializer)

def signedInput (scriptCode : CScript) (i : Nat) (txin : CTxIn) : CTxIn where
  prevout := txin.prevout
  scriptSig := if i ≠ ser.nIn then [] else scriptCode
  nSequence := if i ≠ ser.nIn ∧ (ser.fHashSingle || ser.fHashNone) = true then 0 else txin.nSequence

variable {ser : CTransactionSignatureSerializer}

variable {ops : List CScript.Operation}

theorem serializeInputAt_eq (code : ser.scriptCode = CScript.assemble ops) (there : ser.txTo.vin[i]? = some txin) :
    ∃ writes, ser.serializeInputAt i = .ok writes ∧
      writes.bytes = (serializeTxIn (ser.signedInput (CScript.assemble (CScript.withoutSeparators ops)) i txin)).bytes := by
  unfold serializeInputAt signedInput serializeTxIn
  rw [Access.element_ok there]
  dsimp only [Except.bind]
  have zero : intBytes 4 0 = leBytes 4 0 := rfl
  by_cases other : i ≠ ser.nIn
  · rw [if_pos other, if_pos other]
    refine ⟨_, rfl, ?_⟩
    by_cases updates : (ser.fHashSingle || ser.fHashNone) = true
    · rw [if_pos ⟨other, updates⟩, if_pos ⟨other, updates⟩, zero]
    · rw [if_neg (fun both => updates both.2), if_neg (fun both => updates both.2)]
  · obtain ⟨script, written, bytes⟩ := CScript.serializeScriptCode_eq ops
    rw [if_neg other, if_neg other, if_neg (fun both => other both.1), if_neg (fun both => other both.1), code, written]
    refine ⟨_, rfl, ?_⟩
    rw [Writes.bytes_append, Writes.bytes_append, bytes, Writes.bytes_append, Writes.bytes_append]

def signedInputs (ser : CTransactionSignatureSerializer) (scriptCode : CScript) : List CTxIn :=
  if ser.fAnyoneCanPay then (ser.txTo.vin[ser.nIn]?.map (ser.signedInput scriptCode ser.nIn)).toList
  else ser.txTo.vin.mapIdx (ser.signedInput scriptCode)

def signedOutputs (ser : CTransactionSignatureSerializer) : List CTxOut :=
  if ser.fHashNone then []
  else if ser.fHashSingle then (ser.txTo.vout.take (ser.nIn + 1)).mapIdx fun i txout => if i ≠ ser.nIn then CTxOut.null else txout
  else ser.txTo.vout

theorem inputs_eq (code : ser.scriptCode = CScript.assemble ops) (inside : ser.nIn < ser.txTo.vin.length) :
    ∃ inputs, serializeEach ser.serializeInput ser.nInputs = .ok inputs ∧
      (writeCompactSize ser.nInputs).bytes ++ inputs.bytes =
        (serializeVector serializeTxIn (ser.signedInputs (CScript.assemble (CScript.withoutSeparators ops)))).bytes := by
  have signed : ∃ v, v = ser.signedInputs (CScript.assemble (CScript.withoutSeparators ops)) ∧ v.length = ser.nInputs ∧
      ∀ i txin, v[i]? = some txin → ∃ writes, ser.serializeInput i = .ok writes ∧ writes.bytes = (serializeTxIn txin).bytes := by
    refine ⟨_, rfl, ?_⟩
    unfold signedInputs nInputs serializeInput
    cases ser.fAnyoneCanPay with
    | true =>
      have there := List.getElem?_eq_getElem inside
      rw [if_pos rfl, if_pos rfl, there]
      refine ⟨rfl, fun i txin found => ?_⟩
      obtain rfl : i = 0 := by simpa using (List.getElem?_eq_some_iff.mp found).1
      obtain rfl := Option.some.inj found
      rw [if_pos rfl]
      exact serializeInputAt_eq code there
    | false =>
      rw [if_neg Bool.false_ne_true, if_neg Bool.false_ne_true]
      refine ⟨List.length_mapIdx, fun i txin found => ?_⟩
      rw [List.getElem?_mapIdx, Option.map_eq_some_iff] at found
      obtain ⟨source, there, rfl⟩ := found
      rw [if_neg Bool.false_ne_true]
      exact serializeInputAt_eq code there
  obtain ⟨v, rfl, length, each⟩ := signed
  obtain ⟨inputs, serialized, bytes⟩ := serializeEach_ok each
  rw [length] at serialized
  exact ⟨inputs, serialized, by rw [bytes_serializeVector, ← Writes.bytes_flatMap, bytes, length]⟩

theorem outputs_eq (inside : ser.fHashSingle = true → ser.nIn < ser.txTo.vout.length) :
    ∃ outputs, serializeEach ser.serializeOutput ser.nOutputs = .ok outputs ∧
      (writeCompactSize ser.nOutputs).bytes ++ outputs.bytes = (serializeVector serializeTxOut ser.signedOutputs).bytes := by
  have signed : ∃ v, v = ser.signedOutputs ∧ v.length = ser.nOutputs ∧
      ∀ i txout, v[i]? = some txout → ∃ writes, ser.serializeOutput i = .ok writes ∧ writes.bytes = (serializeTxOut txout).bytes := by
    refine ⟨_, rfl, ?_⟩
    unfold signedOutputs nOutputs serializeOutput
    cases ser.fHashNone with
    | true =>
      rw [if_pos rfl, if_pos rfl]
      exact ⟨rfl, fun i txout impossible => by cases impossible⟩
    | false =>
      rw [if_neg Bool.false_ne_true, if_neg Bool.false_ne_true]
      cases single : ser.fHashSingle with
      | true =>
        have enough := inside single
        rw [if_pos rfl, if_pos rfl]
        refine ⟨by rw [List.length_mapIdx, List.length_take]; omega, fun i txout found => ?_⟩
        rw [List.getElem?_mapIdx, Option.map_eq_some_iff] at found
        obtain ⟨source, there, rfl⟩ := found
        by_cases other : i ≠ ser.nIn
        · rw [if_pos ⟨rfl, other⟩, if_pos other]
          exact ⟨_, rfl, rfl⟩
        · have at_ : i < ser.nIn + 1 := by omega
          rw [List.getElem?_take_of_lt at_] at there
          rw [if_neg (fun both => other both.2), if_neg other, Access.element_ok there]
          exact ⟨_, rfl, rfl⟩
      | false =>
        rw [if_neg Bool.false_ne_true, if_neg Bool.false_ne_true]
        refine ⟨rfl, fun i txout there => ?_⟩
        rw [if_neg (fun both => Bool.false_ne_true both.1), Access.element_ok there]
        exact ⟨_, rfl, rfl⟩
  obtain ⟨v, rfl, length, each⟩ := signed
  obtain ⟨outputs, serialized, bytes⟩ := serializeEach_ok each
  rw [length] at serialized
  exact ⟨outputs, serialized, by rw [bytes_serializeVector, ← Writes.bytes_flatMap, bytes, length]⟩

theorem serialize_eq (code : ser.scriptCode = CScript.assemble ops) (input : ser.nIn < ser.txTo.vin.length)
    (output : ser.fHashSingle = true → ser.nIn < ser.txTo.vout.length) :
    ∃ writes, ser.serialize = .ok writes ∧
      writes.bytes = (CMutableTransaction.mk ser.txTo.nVersion (ser.signedInputs (CScript.assemble (CScript.withoutSeparators ops)))
        ser.signedOutputs ser.txTo.nLockTime).serialize.bytes := by
  obtain ⟨inputs, serialized, bytes⟩ := inputs_eq code input
  obtain ⟨outputs, serialized', bytes'⟩ := outputs_eq output
  rw [serialize, serialized, serialized']
  refine ⟨_, rfl, ?_⟩
  simp only [CMutableTransaction.serialize, Writes.bytes_append, Writes.bytes_cons, bytes, bytes']

end CTransactionSignatureSerializer

namespace CMutableTransaction

variable (scriptCode : CScript)

theorem getElem?_blankScripts (nIn : Nat) (vin : List CTxIn) (i : Nat) :
    (blankScripts scriptCode nIn vin)[i]? = vin[i]?.map fun txin => { txin with scriptSig := if i ≠ nIn then [] else scriptCode } := by
  rw [blankScripts, List.getElem?_modify, List.getElem?_map]
  cases vin[i]? with
  | none => rfl
  | some txin =>
    by_cases other : i ≠ nIn
    · have apart : nIn ≠ i := Ne.symm other
      simp [apart, other]
    · obtain rfl : i = nIn := by omega
      simp

variable {ser : CTransactionSignatureSerializer}

theorem blankScripts_eq (locked : (ser.fHashSingle || ser.fHashNone) = false) :
    blankScripts scriptCode ser.nIn ser.txTo.vin = ser.txTo.vin.mapIdx (ser.signedInput scriptCode) := by
  apply List.ext_getElem?
  intro i
  rw [getElem?_blankScripts, List.getElem?_mapIdx]
  congr 1
  funext txin
  have kept : ¬(i ≠ ser.nIn ∧ (ser.fHashSingle || ser.fHashNone) = true) := by simp [locked]
  rw [CTransactionSignatureSerializer.signedInput, if_neg kept]

theorem zeroSequences_eq (updates : (ser.fHashSingle || ser.fHashNone) = true) :
    zeroSequences ser.nIn (blankScripts scriptCode ser.nIn ser.txTo.vin) = ser.txTo.vin.mapIdx (ser.signedInput scriptCode) := by
  apply List.ext_getElem?
  intro i
  rw [zeroSequences, List.getElem?_mapIdx, getElem?_blankScripts, List.getElem?_mapIdx, Option.map_map]
  congr 1
  funext txin
  rw [CTransactionSignatureSerializer.signedInput, updates, Function.comp]
  by_cases other : i ≠ ser.nIn
  · rw [if_pos other, if_pos other, if_pos ⟨other, rfl⟩]
  · rw [if_neg other, if_neg other, if_neg (fun both => other both.1)]

theorem onlyInput_eq (inside : ser.nIn < ser.txTo.vin.length) :
    (if ser.fAnyoneCanPay = true then onlyInput ser.nIn (ser.txTo.vin.mapIdx (ser.signedInput scriptCode))
      else ser.txTo.vin.mapIdx (ser.signedInput scriptCode)) = ser.signedInputs scriptCode := by
  unfold CTransactionSignatureSerializer.signedInputs
  by_cases anyone : ser.fAnyoneCanPay = true
  · have there := List.getElem?_eq_getElem inside
    rw [if_pos anyone, if_pos anyone, onlyInput, List.getD_eq_getElem?_getD, List.getElem?_mapIdx, there]
    generalize indexed : ser.txTo.vin.mapIdx (ser.signedInput scriptCode) = vin
    have length : vin.length = ser.txTo.vin.length := by rw [← indexed, List.length_mapIdx]
    cases vin with
    | nil =>
      rw [List.length_nil] at length
      omega
    | cons _ _ => rfl
  · rw [if_neg anyone, if_neg anyone]

theorem blankOutputs_eq :
    blankOutputs ser.nIn ser.txTo.vout =
      (ser.txTo.vout.take (ser.nIn + 1)).mapIdx fun i txout => if i ≠ ser.nIn then CTxOut.null else txout := by
  apply List.ext_getElem?
  intro i
  rw [blankOutputs, List.getElem?_mapIdx, List.getElem?_mapIdx]
  by_cases within : i < ser.nIn + 1
  · congr 1
    funext txout
    by_cases other : i ≠ ser.nIn
    · rw [if_pos other, if_pos (by omega)]
    · rw [if_neg other, if_neg (by omega)]
  · rw [List.getElem?_take_eq_none (by omega)]
    rfl

end CMutableTransaction

theorem finishMessageOld_eq {ser : CTransactionSignatureSerializer} {nHashType : BitVec 32} {vin : List CTxIn}
    {vout : List CTxOut} (code : ser.scriptCode = CScript.assemble ops)
    (anyone : ser.fAnyoneCanPay = true ↔ nHashType &&& SIGHASH_ANYONECANPAY ≠ 0) (input : ser.nIn < ser.txTo.vin.length)
    (output : ser.fHashSingle = true → ser.nIn < ser.txTo.vout.length)
    (inputs : vin = ser.txTo.vin.mapIdx (ser.signedInput (CScript.assemble (CScript.withoutSeparators ops))))
    (outputs : vout = ser.signedOutputs) :
    (ser.serialize.map fun txTmp => some (Writes.bytes (txTmp ++ [leBytes 4 nHashType.toNat]))) =
      .ok (some (finishMessageOld ser.nIn nHashType ⟨ser.txTo.nVersion, vin, vout, ser.txTo.nLockTime⟩)) := by
  obtain ⟨txTmp, serialized, bytes⟩ := CTransactionSignatureSerializer.serialize_eq code input output
  have moved := CMutableTransaction.onlyInput_eq (CScript.assemble (CScript.withoutSeparators ops)) input
  rw [serialized, Except.map, finishMessageOld, Writes.bytes_append, bytes, Writes.bytes_append, ← moved, inputs, outputs]
  by_cases any : nHashType &&& SIGHASH_ANYONECANPAY ≠ 0
  · rw [if_pos any, if_pos (anyone.mpr any)]
  · rw [if_neg any, if_neg (fun set => any (anyone.mp set))]

open CMutableTransaction CTransactionSignatureSerializer in
theorem signatureMessage_assemble (ops : List CScript.Operation) (txTo : CTransaction) (nIn : Nat) (nHashType : BitVec 32) :
    signatureMessage (CScript.assemble ops) txTo nIn nHashType = .ok (signatureMessageOld (CScript.assemble ops) txTo nIn nHashType) := by
  unfold signatureMessage signatureMessageOld
  by_cases outside : nIn ≥ txTo.vin.length
  · rw [if_pos outside, if_pos outside]
  rw [if_neg outside, if_neg outside, CScript.findAndDelete_separators]
  dsimp only
  have input : nIn < txTo.vin.length := Nat.lt_of_not_le outside
  obtain ⟨ser, made⟩ : ∃ ser, ser = ofHashType txTo (CScript.assemble ops) nIn nHashType := ⟨_, rfl⟩
  have anyone : ser.fAnyoneCanPay = true ↔ nHashType &&& SIGHASH_ANYONECANPAY ≠ 0 := by rw [made]; exact decide_eq_true_iff
  have single_ : ser.fHashSingle = true ↔ nHashType &&& 0x1f = SIGHASH_SINGLE := by rw [made]; exact decide_eq_true_iff
  have none_ : ser.fHashNone = true ↔ nHashType &&& 0x1f = SIGHASH_NONE := by rw [made]; exact decide_eq_true_iff
  rw [← made]
  obtain ⟨rfl, code, rfl⟩ : txTo = ser.txTo ∧ ser.scriptCode = CScript.assemble ops ∧ nIn = ser.nIn := by rw [made]; exact ⟨rfl, rfl, rfl⟩
  by_cases none : nHashType &&& 0x1f = SIGHASH_NONE
  · have other : nHashType &&& 0x1f ≠ SIGHASH_SINGLE := by
      rw [none]
      decide
    rw [if_pos none, if_neg (fun both => other both.1)]
    refine finishMessageOld_eq code anyone input (fun single => absurd (single_.mp single) other) (zeroSequences_eq _ ?_) ?_
    · rw [none_.mpr none, Bool.or_true]
    · rw [signedOutputs, if_pos (none_.mpr none)]
  · have kept : ¬ser.fHashNone = true := fun set => none (none_.mp set)
    rw [if_neg none]
    by_cases single : nHashType &&& 0x1f = SIGHASH_SINGLE
    · rw [if_pos single]
      by_cases out : ser.nIn ≥ ser.txTo.vout.length
      · rw [if_pos out, if_pos ⟨single, out⟩]
      · rw [if_neg out, if_neg (fun both => out both.2)]
        refine finishMessageOld_eq code anyone input (fun _ => Nat.lt_of_not_le out) (zeroSequences_eq _ ?_) ?_
        · rw [single_.mpr single, Bool.true_or]
        · rw [signedOutputs, if_neg kept, if_pos (single_.mpr single), blankOutputs_eq]
    · have all : ¬ser.fHashSingle = true := fun set => single (single_.mp set)
      rw [if_neg single, if_neg (fun both => single both.1)]
      refine finishMessageOld_eq code anyone input (fun set => absurd set all) (blankScripts_eq _ ?_) ?_
      · rw [Bool.eq_false_iff.mpr kept, Bool.eq_false_iff.mpr all, Bool.or_false]
      · rw [signedOutputs, if_neg kept, if_neg all]
        rfl

/-- For a script code that is read to its end, the serializer reads nothing out of range, and what is hashed is what the reference
hashes. The two return one for the same arguments. -/
theorem signatureHash_eq_old (hash256 : List UInt8 → uint256) (scriptCode : CScript) (txTo : CTransaction) (nIn : Nat) (nHashType : BitVec 32)
    (complete : CScript.Parses scriptCode) :
    signatureMessage scriptCode txTo nIn nHashType = .ok (signatureMessageOld scriptCode txTo nIn nHashType) ∧
      signatureHash hash256 scriptCode txTo nIn nHashType = .ok (signatureHashOld hash256 scriptCode txTo nIn nHashType) := by
  obtain ⟨ops, rfl⟩ := CScript.parses_iff.mp complete
  have same := signatureMessage_assemble ops txTo nIn nHashType
  refine ⟨same, ?_⟩
  rw [signatureHash, same]
  rfl

/-- A code separator in the script code, and the flags for a single output and a single input. -/
theorem signatureHash_eq_old_separated :
    CScript.Parses [0x51, 0xab, 0xac] ∧
      signatureMessage [0x51, 0xab, 0xac] { hash := 0, nVersion := 1, vin := [⟨⟨7, 0⟩, [0x52], 5⟩, ⟨⟨8, 1⟩, [], 6⟩], vout := [⟨3, [0x51], -10⟩], nLockTime := 0 } 0
        (SIGHASH_SINGLE ||| SIGHASH_ANYONECANPAY) =
        .ok (signatureMessageOld [0x51, 0xab, 0xac]
          { hash := 0, nVersion := 1, vin := [⟨⟨7, 0⟩, [0x52], 5⟩, ⟨⟨8, 1⟩, [], 6⟩], vout := [⟨3, [0x51], -10⟩], nLockTime := 0 } 0
          (SIGHASH_SINGLE ||| SIGHASH_ANYONECANPAY)) := by
  have complete : CScript.Parses [0x51, 0xab, 0xac] := .operation rfl (.operation rfl (.operation rfl .ended))
  exact ⟨complete, (signatureHash_eq_old (fun _ => 0) _ _ _ _ complete).1⟩

section

open CTransactionSignatureSerializer

/-- What a signature covers of a transaction. -/
def signedPart (scriptCode : CScript) (txTo : CTransaction) (nIn : Nat) (nHashType : BitVec 32) : CTransaction :=
  let ser := ofHashType txTo scriptCode nIn nHashType
  { txTo with hash := 0, vin := ser.signedInputs (CScript.findAndDelete scriptCode [OP_CODESEPARATOR]), vout := ser.signedOutputs }

/-- `SignatureHash` has something to hash. -/
structure Signs (scriptCode : CScript) (txTo : CTransaction) (nIn : Nat) (nHashType : BitVec 32) : Prop where
  fits : TxFits txTo
  script : scriptCode.length ≤ MAX_SIZE
  complete : CScript.Parses scriptCode
  input : nIn < txTo.vin.length
  output : nHashType &&& 0x1f = SIGHASH_SINGLE → nIn < txTo.vout.length

variable {scriptCode scriptCode' : CScript} {txTo txTo' : CTransaction} {nIn nIn' : Nat} {nHashType nHashType' : BitVec 32}
  {ser : CTransactionSignatureSerializer}

theorem signedInputs_fit (fits : ∀ txin ∈ ser.txTo.vin, TxInFits txin) (short : scriptCode.length ≤ MAX_SIZE) :
    ∀ txin ∈ ser.signedInputs scriptCode, TxInFits txin := by
  have each : ∀ i, ∀ txin ∈ ser.txTo.vin, TxInFits (ser.signedInput scriptCode i txin) := by
    intro i txin there
    obtain ⟨index, _, sequence⟩ := fits txin there
    refine ⟨index, ?_, ?_⟩
    · show (if i ≠ ser.nIn then [] else scriptCode).length ≤ MAX_SIZE
      split
      · exact Nat.zero_le _
      · exact short
    · show (if _ then 0 else txin.nSequence) < 2 ^ 32
      split
      · exact Nat.two_pow_pos 32
      · exact sequence
  intro txin member
  unfold signedInputs at member
  split at member
  · obtain ⟨source, there, rfl⟩ := Option.map_eq_some_iff.mp (Option.mem_toList.mp member)
    exact each _ source (List.mem_of_getElem? there)
  · obtain ⟨i, inside, rfl⟩ := List.mem_mapIdx.mp member
    exact each i _ (List.getElem_mem inside)

theorem signedOutputs_fit (fits : ∀ txout ∈ ser.txTo.vout, TxOutFits txout) : ∀ txout ∈ ser.signedOutputs, TxOutFits txout := by
  intro txout member
  unfold signedOutputs at member
  split at member
  · cases member
  · split at member
    · obtain ⟨i, inside, rfl⟩ := List.mem_mapIdx.mp member
      split
      · exact ⟨⟨by decide, by decide⟩, Nat.zero_le _⟩
      · exact fits _ (List.mem_of_mem_take (List.getElem_mem inside))
    · exact fits txout member

theorem length_signedInputs_le (scriptCode : CScript) : (ser.signedInputs scriptCode).length ≤ ser.txTo.vin.length := by
  unfold signedInputs
  split
  · cases there : ser.txTo.vin[ser.nIn]? with
    | none => exact Nat.zero_le _
    | some txin => exact List.length_pos_of_mem (List.mem_of_getElem? there)
  · exact List.length_mapIdx.le

theorem length_signedOutputs_le : ser.signedOutputs.length ≤ ser.txTo.vout.length := by
  unfold signedOutputs
  split
  · exact Nat.zero_le _
  · split
    · rw [List.length_mapIdx]
      exact List.length_take_le' _ _
    · exact Nat.le_refl _

theorem Signs.message (signs : Signs scriptCode txTo nIn nHashType) :
    TxFits (signedPart scriptCode txTo nIn nHashType) ∧ signatureMessage scriptCode txTo nIn nHashType =
      .ok (some ((serializeTransaction (signedPart scriptCode txTo nIn nHashType)).bytes ++ leBytes 4 nHashType.toNat)) := by
  obtain ⟨fits, script, complete, input, output⟩ := signs
  obtain ⟨ops, rfl⟩ := CScript.parses_iff.mp complete
  unfold signedPart
  rw [CScript.findAndDelete_separators]
  constructor
  · obtain ⟨count, -, length⟩ := CScript.countCodeSeparators_eq 0 (Nat.zero_le _) (List.drop_zero (l := CScript.assemble ops))
      (Nat.lt_succ_self ops.length)
    exact ⟨fits.version, (length_signedInputs_le _).trans fits.vinSize, signedInputs_fit fits.inputs (by omega),
      length_signedOutputs_le.trans fits.voutSize, signedOutputs_fit fits.outputs, fits.lockTime⟩
  · have single : (ofHashType txTo (CScript.assemble ops) nIn nHashType).fHashSingle = true → nIn < txTo.vout.length :=
      fun set => output (of_decide_eq_true set)
    have code : (ofHashType txTo (CScript.assemble ops) nIn nHashType).scriptCode = CScript.assemble ops := rfl
    obtain ⟨writes, serialized, bytes⟩ := serialize_eq code input single
    rw [signatureMessage, if_neg (Nat.not_le.mpr input), if_neg (fun both => absurd (output both.1) (Nat.not_lt.mpr both.2)), serialized,
      Except.map, Writes.bytes_append, bytes]
    simp [CMutableTransaction.serialize, serializeTransaction, ofHashType]

/-- Two messages to sign are the same exactly when the hash types are and the covered parts are, but for what is never written. -/
theorem signatureMessage_eq_iff (signs : Signs scriptCode txTo nIn nHashType) (signs' : Signs scriptCode' txTo' nIn' nHashType') :
    signatureMessage scriptCode txTo nIn nHashType = signatureMessage scriptCode' txTo' nIn' nHashType' ↔
      nHashType = nHashType' ∧ readTransaction (fun _ => 0) (signedPart scriptCode txTo nIn nHashType) =
        readTransaction (fun _ => 0) (signedPart scriptCode' txTo' nIn' nHashType') := by
  obtain ⟨fits, message⟩ := signs.message
  obtain ⟨fits', message'⟩ := signs'.message
  rw [message, message']
  constructor
  · intro same
    obtain ⟨part, type⟩ := List.append_inj' (Option.some.inj (Except.ok.inj same)) (by rw [length_leBytes, length_leBytes])
    have number := congrArg leValue type
    rw [leValue_leBytes, leValue_leBytes, Nat.mod_eq_of_lt (by omega), Nat.mod_eq_of_lt (by omega)] at number
    have read := @unserializeTransaction_reads (fun _ => 0) _ fits []
    rw [part, unserializeTransaction_reads fits' []] at read
    exact ⟨BitVec.eq_of_toNat_eq number, (congrArg Prod.fst (Except.ok.inj read)).symm⟩
  · rintro ⟨rfl, same⟩
    rw [← bytes_readTransaction, same, bytes_readTransaction]

/-- A script and the outputs that `SIGHASH_NONE` leaves unsigned. -/
theorem signatureMessage_eq_iff_none : signatureMessage [0xac] ⟨0, 1, [⟨⟨7, 0⟩, [0x51], 5⟩], [⟨3, [], -10⟩], 0⟩ 0 SIGHASH_NONE =
    signatureMessage [0xac] ⟨0, 1, [⟨⟨7, 0⟩, [], 5⟩], [], 0⟩ 0 SIGHASH_NONE := by
  have complete : CScript.Parses [0xac] := .operation rfl .ended
  have input : ∀ script : CScript, script.length ≤ MAX_SIZE → ∀ txin ∈ [CTxIn.mk ⟨7, 0⟩ script 5], TxInFits txin :=
    fun script short => List.forall_mem_singleton.mpr ⟨show 0 < 2 ^ 32 by decide, short, show 5 < 2 ^ 32 by decide⟩
  have output : ∀ txout ∈ [CTxOut.mk 3 [] (-10)], TxOutFits txout :=
    List.forall_mem_singleton.mpr ⟨⟨by decide, by decide⟩, by decide⟩
  exact (signatureMessage_eq_iff
    ⟨⟨⟨by decide, by decide⟩, by decide, input _ (by decide), by decide, output, by decide⟩, by decide, complete, by decide, by decide⟩
    ⟨⟨⟨by decide, by decide⟩, by decide, input _ (by decide), by decide, List.forall_mem_nil _, by decide⟩, by decide, complete, by decide,
      by decide⟩).mpr ⟨rfl, rfl⟩

end

end SchillingCoin
