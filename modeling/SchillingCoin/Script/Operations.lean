import SchillingCoin.Lib.Codec
import SchillingCoin.Script.Script

/-!
Scripts as sequences of operations: the bytes of an operation, which are what `GetOp2` reads, and the scripts that consist of
operations to their end.
-/

namespace SchillingCoin

open Codec

namespace CScript

theorem littleEndian_eq (bytes : List UInt8) : littleEndian bytes = leValue bytes := by
  induction bytes with
  | nil => rfl
  | cons b rest ih => rw [leValue, ← ih, littleEndian, List.foldr_cons, littleEndian]

def CanHold (opcode : UInt8) (data : valtype) : Prop :=
  if opcode < OP_PUSHDATA1 then opcode.toNat = data.length
  else if opcode ≤ OP_PUSHDATA4 then data.length < 256 ^ sizeWidth opcode
  else data = []

instance (opcode : UInt8) (data : valtype) : Decidable (CanHold opcode data) := by
  unfold CanHold
  infer_instance

structure Operation where
  opcode : UInt8
  data : valtype := []
  holds : CanHold opcode data
  deriving DecidableEq

namespace Operation

/-- The size of the data, where the operation does not give it. -/
def sizeBytes (op : Operation) : List UInt8 :=
  if op.opcode < OP_PUSHDATA1 then []
  else if op.opcode ≤ OP_PUSHDATA4 then leBytes (sizeWidth op.opcode) op.data.length
  else []

def bytes (op : Operation) : CScript := op.opcode :: (op.sizeBytes ++ op.data)

theorem not_push {opcode : UInt8} (high : OP_PUSHDATA4 < opcode) : ¬opcode ≤ OP_PUSHDATA4 ∧ ¬opcode < OP_PUSHDATA1 :=
  ⟨UInt8.not_le.mpr high, fun short => UInt8.lt_irrefl _ (UInt8.lt_trans high (UInt8.lt_trans short (by decide)))⟩

def plain (opcode : UInt8) (high : OP_PUSHDATA4 < opcode) : Operation where
  opcode
  holds := by rw [CanHold, if_neg (not_push high).2, if_neg (not_push high).1]

theorem data_nil {op : Operation} (high : OP_PUSHDATA4 < op.opcode) : op.data = [] := by
  have holds := op.holds
  rwa [CanHold, if_neg (not_push high).2, if_neg (not_push high).1] at holds

theorem bytes_of_high {op : Operation} (high : OP_PUSHDATA4 < op.opcode) : op.bytes = [op.opcode] := by
  rw [bytes, data_nil high, sizeBytes, if_neg (not_push high).2, if_neg (not_push high).1]
  rfl

@[simp] theorem plain_bytes {opcode : UInt8} (high : OP_PUSHDATA4 < opcode) : (plain opcode high).bytes = [opcode] :=
  bytes_of_high high

theorem bytes_of_short {op : Operation} (short : op.opcode < OP_PUSHDATA1) : op.bytes = op.opcode :: op.data := by
  rw [bytes, sizeBytes, if_pos short, List.nil_append]

theorem bytes_of_long {op : Operation} (long : ¬op.opcode < OP_PUSHDATA1) (push : op.opcode ≤ OP_PUSHDATA4) :
    op.bytes = op.opcode :: (leBytes (sizeWidth op.opcode) op.data.length ++ op.data) := by
  rw [bytes, sizeBytes, if_neg long, if_pos push]

@[ext] theorem ext {op' : Operation} (opcode : op.opcode = op'.opcode) (data : op.data = op'.data) : op = op' := by
  cases op
  cases op'
  cases opcode
  cases data
  rfl

end Operation

variable (op : Operation) (ops : List Operation)

theorem getOp_bytes (rest : CScript) : getOp (op.bytes ++ rest) = some (op.opcode, op.data, rest) := by
  have holds := op.holds
  unfold CanHold at holds
  by_cases short : op.opcode < OP_PUSHDATA1
  · have push : op.opcode ≤ OP_PUSHDATA4 := UInt8.le_of_lt (UInt8.lt_trans short (by decide))
    rw [if_pos short] at holds
    rw [Operation.bytes_of_short short, List.cons_append, getOp, if_pos push, getPushSize, if_pos short, holds]
    simp
  · by_cases push : op.opcode ≤ OP_PUSHDATA4
    · rw [if_neg short, if_pos push] at holds
      have size : littleEndian (leBytes (sizeWidth op.opcode) op.data.length) = op.data.length := by
        rw [littleEndian_eq, leValue_leBytes, Nat.mod_eq_of_lt holds]
      have width : (leBytes (sizeWidth op.opcode) op.data.length).length = sizeWidth op.opcode := length_leBytes _ _
      have enough : ¬(leBytes (sizeWidth op.opcode) op.data.length ++ (op.data ++ rest)).length < sizeWidth op.opcode := by
        simp only [List.length_append, width]
        omega
      rw [Operation.bytes_of_long short push, List.cons_append, List.append_assoc, getOp, if_pos push, getPushSize, if_neg short,
        if_neg enough, List.take_left' width, List.drop_left' width, size]
      simp
    · have high : OP_PUSHDATA4 < op.opcode := UInt8.not_le.mp push
      rw [Operation.bytes_of_high high, Operation.data_nil high]
      exact getOp_plain push rest

theorem exists_operation {data : valtype} (read : getOp s = some (opcode, data, rest)) :
    ∃ op : Operation, op.opcode = opcode ∧ op.data = data ∧ s = op.bytes ++ rest := by
  cases s with
  | nil => cases read
  | cons b pc =>
    rw [getOp] at read
    by_cases push : b ≤ OP_PUSHDATA4
    · rw [if_pos push] at read
      simp only [Option.bind_eq_bind, Option.bind_eq_some_iff] at read
      obtain ⟨⟨nSize, pc'⟩, sized, read⟩ := read
      dsimp only at read
      split at read
      · cases read
      · next enough =>
        obtain ⟨rfl, rfl, rfl⟩ : b = opcode ∧ pc'.take nSize = data ∧ pc'.drop nSize = rest := by simpa using read
        have length : (pc'.take nSize).length = nSize := by
          rw [List.length_take]
          omega
        unfold getPushSize at sized
        by_cases short : b < OP_PUSHDATA1
        · rw [if_pos short] at sized
          obtain ⟨rfl, rfl⟩ := Prod.mk.inj (Option.some.inj sized)
          have holds : CanHold b (pc.take b.toNat) := by
            rw [CanHold, if_pos short, length]
          refine ⟨⟨b, pc.take b.toNat, holds⟩, rfl, rfl, ?_⟩
          rw [Operation.bytes_of_short short, List.cons_append, List.take_append_drop]
        · rw [if_neg short] at sized
          split at sized
          · cases sized
          · next there =>
            obtain ⟨rfl, rfl⟩ := Prod.mk.inj (Option.some.inj sized)
            have width : (pc.take (sizeWidth b)).length = sizeWidth b := by
              rw [List.length_take]
              omega
            have small := leValue_lt (pc.take (sizeWidth b))
            rw [width] at small
            rw [littleEndian_eq] at length enough ⊢
            have holds : CanHold b ((pc.drop (sizeWidth b)).take (leValue (pc.take (sizeWidth b)))) := by
              rw [CanHold, if_neg short, if_pos push, length]
              exact small
            refine ⟨⟨b, _, holds⟩, rfl, rfl, ?_⟩
            have sizes := leBytes_leValue (pc.take (sizeWidth b))
            rw [width] at sizes
            rw [Operation.bytes_of_long short push, length, sizes, List.cons_append, List.append_assoc, List.take_append_drop,
              List.take_append_drop]
    · rw [if_neg push] at read
      obtain ⟨rfl, rfl, rfl⟩ : b = opcode ∧ [] = data ∧ pc = rest := by simpa using read
      exact ⟨.plain b (UInt8.not_le.mp push), rfl, rfl, by simp⟩

theorem bytes_append_inj {op : Operation} (same : op.bytes ++ rest = op'.bytes ++ rest') : op = op' ∧ rest = rest' := by
  have first := getOp_bytes op rest
  rw [same, getOp_bytes] at first
  obtain ⟨opcode, data, rest_⟩ : op'.opcode = op.opcode ∧ op'.data = op.data ∧ rest' = rest := by simpa using first
  exact ⟨Operation.ext opcode.symm data.symm, rest_.symm⟩

def assemble : CScript := ops.flatMap Operation.bytes

@[simp] theorem assemble_nil : assemble [] = [] := rfl

@[simp] theorem assemble_cons : assemble (op :: ops) = op.bytes ++ assemble ops := rfl

@[simp] theorem assemble_append (ops' : List Operation) : assemble (ops ++ ops') = assemble ops ++ assemble ops' :=
  List.flatMap_append

theorem getOp_assemble : getOp (assemble (op :: ops)) = some (op.opcode, op.data, assemble ops) :=
  getOp_bytes op (assemble ops)

theorem assemble_injective {ops ops' : List Operation} (same : assemble ops = assemble ops') : ops = ops' := by
  induction ops generalizing ops' with
  | nil =>
    cases ops' with
    | nil => rfl
    | cons op' ops' => exact absurd (congrArg List.length same) (by simp [Operation.bytes])
  | cons op ops ih =>
    cases ops' with
    | nil => exact absurd (congrArg List.length same) (by simp [Operation.bytes])
    | cons op' ops' =>
      obtain ⟨rfl, rest⟩ := bytes_append_inj same
      rw [ih rest]

end CScript

end SchillingCoin
