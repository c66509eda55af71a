import SchillingCoin.Script.Operations
import Mathlib.Data.List.Induction
import Mathlib.Data.Nat.Bitwise

/-!
Numbers of scripts as byte vectors: the magnitude from its lowest byte, the sign in the highest bit. `set_vch` is here in signed
arithmetic of 64 bits, as `script.h` computes it.
-/

namespace SchillingCoin

open Codec

namespace CScriptNum

/-- `result` in `set_vch` after the bytes from the `i`-th on. A shift by 64 bits or more has no meaning in the source, where no caller
asks for more than eight bytes. -/
def orBytes : Nat → BitVec 64 → List UInt8 → BitVec 64
  | _, result, [] => result
  | i, result, b :: rest => orBytes (i + 1) (result ||| BitVec.ofNat 64 b.toNat <<< (8 * i)) rest

def set_vch (vch : valtype) : BitVec 64 :=
  match vch.getLast? with
  | none => 0
  | some back =>
    let result := orBytes 0 0 vch
    if back &&& 0x80 ≠ 0 then -(result &&& ~~~((0x80 : BitVec 64) <<< (8 * (vch.length - 1)))) else result

/-- The constructor from a byte vector, with its exceptions as `none`. -/
def fromVch (vch : valtype) (fRequireMinimal : Bool) (nMaxNumSize : Nat) : Option Int :=
  if vch.length > nMaxNumSize then none
  else if fRequireMinimal && !isMinimal vch then none
  else some (set_vch vch).toInt

theorem highBit_iff (b : UInt8) : b &&& 0x80 ≠ 0 ↔ 128 ≤ b.toNat := by
  have small := b.toNat_lt
  have value : (b &&& 0x80).toNat = b.toNat / 2 ^ 7 % 2 * 2 ^ 7 := by
    rw [UInt8.toNat_and, show (0x80 : UInt8).toNat = 2 ^ 7 from rfl, Nat.and_two_pow, Nat.toNat_testBit]
  rw [ne_eq, ← UInt8.toNat_inj, value, UInt8.toNat_zero]
  omega

theorem lowBits_toNat (b : UInt8) : (b &&& 0x7f).toNat = b.toNat % 128 := by
  rw [UInt8.toNat_and, show (0x7f : UInt8).toNat = 2 ^ 7 - 1 from rfl, Nat.and_two_pow_sub_one_eq_mod]

theorem orHighBit_toNat {b : UInt8} (low : b.toNat < 128) : (b ||| 0x80).toNat = b.toNat + 128 := by
  rw [UInt8.toNat_or, show (0x80 : UInt8).toNat = 2 ^ 7 * 1 from rfl, Nat.or_comm, ← Nat.two_pow_add_eq_or_of_lt low]
  omega

variable (front : List UInt8) (last : UInt8)

theorem leValue_concat : leValue (front ++ [last]) = leValue front + 256 ^ front.length * last.toNat := by
  rw [leValue_append]
  rfl

def Stripped (bytes : List UInt8) : Prop := ∀ b ∈ bytes.getLast?, b ≠ 0

theorem Stripped.tail (stripped : Stripped (b :: rest)) : Stripped rest := by
  intro last isLast
  apply stripped
  rw [List.getLast?_cons, Option.mem_def.mp isLast]
  rfl

theorem Stripped.leValue_pos (stripped : Stripped (b :: rest)) : 0 < leValue (b :: rest) := by
  induction rest generalizing b with
  | nil =>
    have nonzero : b.toNat ≠ 0 := fun isZero => stripped b rfl (UInt8.toNat_inj.mp isZero)
    rw [leValue]
    omega
  | cons c rest ih =>
    have after := ih stripped.tail
    rw [leValue]
    omega

theorem bytesOf_succ (k : Nat) (positive : 0 < value) :
    bytesOf (k + 1) value = UInt8.ofNat value :: bytesOf k (value / 256) := by
  obtain ⟨below, rfl⟩ := Nat.exists_eq_succ_of_ne_zero (Nat.ne_of_gt positive)
  rfl

theorem bytesOf_spec {k value : Nat} (small : value < 256 ^ k) : leValue (bytesOf k value) = value ∧ Stripped (bytesOf k value) := by
  induction k generalizing value with
  | zero =>
    have isZero : value = 0 := by simpa using small
    exact ⟨isZero.symm, fun b last => by simp [bytesOf] at last⟩
  | succ k ih =>
    by_cases positive : 0 < value
    · obtain ⟨rest, stripped⟩ := @ih (value / 256) (by rw [Nat.pow_succ] at small; omega)
      have first : (UInt8.ofNat value).toNat = value % 256 := UInt8.toNat_ofNat'
      rw [bytesOf_succ k positive]
      refine ⟨by rw [leValue, rest, first]; omega, ?_⟩
      intro last isLast
      rw [List.getLast?_cons, Option.mem_def, Option.some_inj] at isLast
      cases bytes : (bytesOf k (value / 256)).getLast? with
      | some b =>
        rw [bytes, Option.getD_some] at isLast
        exact isLast ▸ stripped b bytes
      | none =>
        -- the number has one byte
        rw [bytes, Option.getD_none] at isLast
        rw [List.getLast?_eq_none_iff.mp bytes, leValue] at rest
        intro isZero
        rw [← isLast] at isZero
        have byte := congrArg UInt8.toNat isZero
        rw [first, UInt8.toNat_zero] at byte
        omega
    · obtain rfl : value = 0 := by omega
      exact ⟨rfl, fun b last => by simp [bytesOf] at last⟩

theorem bytesOf_leValue {k : Nat} {bytes : List UInt8} (stripped : Stripped bytes) (short : bytes.length ≤ k) :
    bytesOf k (leValue bytes) = bytes := by
  induction bytes generalizing k with
  | nil => cases k <;> rfl
  | cons b rest ih =>
    have positive := stripped.leValue_pos
    cases k with
    | zero => exact absurd short (Nat.not_succ_le_zero _)
    | succ k =>
      have small := b.toNat_lt
      have first : UInt8.ofNat (leValue (b :: rest)) = b := by
        apply UInt8.toNat_inj.mp
        rw [UInt8.toNat_ofNat', leValue]
        omega
      have others : leValue (b :: rest) / 256 = leValue rest := by
        rw [leValue]
        omega
      rw [bytesOf_succ k positive, first, others, ih stripped.tail (Nat.le_of_succ_le_succ short)]

theorem setVch_concat : setVch (front ++ [last]) =
    if 128 ≤ last.toNat then -(leValue (front ++ [last &&& 0x7f]) : Int) else leValue (front ++ [last]) := by
  unfold setVch
  rw [List.getLast?_concat]
  dsimp only
  rw [List.dropLast_concat, CScript.littleEndian_eq, CScript.littleEndian_eq]
  simp only [highBit_iff]

theorem isMinimal_concat :
    isMinimal (front ++ [last]) = true ↔ last.toNat % 128 ≠ 0 ∨ ∃ b, front.getLast? = some b ∧ 128 ≤ b.toNat := by
  have low : (last &&& 0x7f != 0) = true ↔ last.toNat % 128 ≠ 0 := by
    rw [bne_iff_ne, ne_eq, ← UInt8.toNat_inj, lowBits_toNat]
    rfl
  have before : (front.getLast?.any fun b => b &&& 0x80 != 0) = true ↔ ∃ b, front.getLast? = some b ∧ 128 ≤ b.toNat := by
    cases front.getLast? with
    | none => simp
    | some b => simp only [Option.any_some, bne_iff_ne, highBit_iff, Option.some_inj, exists_eq_left']
  unfold isMinimal
  rw [List.reverse_append, List.reverse_singleton, List.singleton_append]
  dsimp only
  rw [List.head?_reverse, Bool.or_eq_true, low, before]

theorem serialize_concat {front : List UInt8} {last : UInt8} (bytes : bytesOf 8 value.natAbs = front ++ [last]) :
    serialize value = if 128 ≤ last.toNat then front ++ [last] ++ [if value < 0 then 0x80 else 0]
      else if value < 0 then front ++ [last ||| 0x80] else front ++ [last] := by
  unfold serialize
  rw [bytes]
  dsimp only
  rw [List.getLast?_concat]
  dsimp only
  rw [List.dropLast_concat]
  simp only [highBit_iff]

theorem setVch_natAbs : (setVch (front ++ [last])).natAbs = leValue front + 256 ^ front.length * (last.toNat % 128) := by
  rw [setVch_concat]
  split
  · rw [leValue_concat, lowBits_toNat]
    omega
  · next low => rw [leValue_concat, Int.natAbs_natCast, Nat.mod_eq_of_lt (Nat.lt_of_not_ge low)]

theorem setVch_neg_iff : setVch (front ++ [last]) < 0 ↔ 128 ≤ last.toNat ∧ setVch (front ++ [last]) ≠ 0 := by
  rw [setVch_concat]
  split <;> omega

theorem setVch_bounds :
    2 * (setVch (front ++ [last])).natAbs < 256 ^ (front.length + 1) ∧
    (isMinimal (front ++ [last]) = true → 256 ^ front.length ≤ 2 * (setVch (front ++ [last])).natAbs) := by
  rw [setVch_natAbs]
  have below := leValue_lt front
  refine ⟨?_, ?_⟩
  · have most : 256 ^ front.length * (last.toNat % 128) ≤ 256 ^ front.length * 127 := Nat.mul_le_mul_left _ (by omega)
    rw [Nat.pow_succ]
    omega
  · intro minimal
    rcases (isMinimal_concat front last).mp minimal with bits | ⟨b, isBack, high⟩
    · have least : 256 ^ front.length * 1 ≤ 256 ^ front.length * (last.toNat % 128) := Nat.mul_le_mul_left _ (by omega)
      omega
    · obtain ⟨before, rfl⟩ := List.getLast?_eq_some_iff.mp isBack
      have least : 256 ^ before.length * 128 ≤ 256 ^ before.length * b.toNat := Nat.mul_le_mul_left _ high
      rw [leValue_concat, List.length_append, List.length_singleton, Nat.pow_succ]
      omega

theorem serialize_setVch {vch : valtype} (minimal : isMinimal vch = true) (short : vch.length ≤ 8) : serialize (setVch vch) = vch := by
  induction vch using List.reverseRecOn with
  | nil => rfl
  | append_singleton front last _ =>
    have small := last.toNat_lt
    rw [List.length_append, List.length_singleton] at short
    have nonzero : setVch (front ++ [last]) ≠ 0 := by
      intro isZero
      have least := (setVch_bounds front last).2 minimal
      have power : 0 < 256 ^ front.length := Nat.pow_pos (by omega)
      rw [isZero, Int.natAbs_zero] at least
      omega
    have sign := setVch_neg_iff front last
    rw [and_iff_left nonzero] at sign
    by_cases bits : last.toNat % 128 = 0
    · -- the last byte has the sign alone, and the bytes before it are those of the magnitude
      rcases (isMinimal_concat front last).mp minimal with some_ | ⟨b, isBack, high⟩
      · exact absurd bits some_
      obtain ⟨before, rfl⟩ := List.getLast?_eq_some_iff.mp isBack
      have stripped : Stripped (before ++ [b]) := by
        intro c isLast
        rw [isBack, Option.mem_def, Option.some_inj] at isLast
        rw [← isLast]
        intro isZero
        rw [isZero] at high
        exact absurd high (by decide)
      have bytes : bytesOf 8 (setVch (before ++ [b] ++ [last])).natAbs = before ++ [b] := by
        rw [setVch_natAbs, bits, Nat.mul_zero, Nat.add_zero]
        exact bytesOf_leValue stripped (by omega)
      rw [serialize_concat bytes, if_pos high]
      congr 2
      apply UInt8.toNat_inj.mp
      split
      · next neg =>
        have := sign.mp neg
        show 128 = _
        omega
      · next pos =>
        have := mt sign.mpr pos
        show 0 = _
        omega
    · have stripped : Stripped (front ++ [last &&& 0x7f]) := by
        intro c isLast
        rw [List.getLast?_concat, Option.mem_def, Option.some_inj] at isLast
        rw [← isLast]
        intro isZero
        rw [← lowBits_toNat, isZero] at bits
        exact bits rfl
      have bytes : bytesOf 8 (setVch (front ++ [last])).natAbs = front ++ [last &&& 0x7f] := by
        rw [setVch_natAbs, ← lowBits_toNat, ← leValue_concat]
        exact bytesOf_leValue stripped (by rw [List.length_append, List.length_singleton]; exact short)
      have low : (last &&& 0x7f).toNat < 128 := by
        rw [lowBits_toNat]
        omega
      rw [serialize_concat bytes, if_neg (by omega)]
      split
      · next neg =>
        have := sign.mp neg
        congr 2
        apply UInt8.toNat_inj.mp
        rw [orHighBit_toNat low, lowBits_toNat]
        omega
      · next pos =>
        have := mt sign.mpr pos
        congr 2
        apply UInt8.toNat_inj.mp
        rw [lowBits_toNat]
        omega

theorem setVch_serialize {n : Int} (small : n.natAbs < 2 ^ 64) : isMinimal (serialize n) = true ∧ setVch (serialize n) = n := by
  obtain ⟨value, stripped⟩ := @bytesOf_spec 8 n.natAbs small
  induction bytes : bytesOf 8 n.natAbs using List.reverseRecOn with
  | nil =>
    rw [bytes] at value
    obtain rfl : n = 0 := Int.natAbs_eq_zero.mp value.symm
    exact ⟨rfl, rfl⟩
  | append_singleton front last _ =>
    have byte := last.toNat_lt
    have nonzero : last ≠ 0 := stripped last (by rw [bytes, List.getLast?_concat]; rfl)
    have positive : last.toNat ≠ 0 := fun isZero => nonzero (UInt8.toNat_inj.mp isZero)
    rw [bytes] at value
    rw [serialize_concat bytes]
    by_cases high : 128 ≤ last.toNat
    · rw [if_pos high]
      refine ⟨(isMinimal_concat _ _).mpr (Or.inr ⟨last, List.getLast?_concat, high⟩), ?_⟩
      have same : leValue (front ++ [last] ++ [0]) = n.natAbs := by
        rw [leValue_concat, value]
        exact Nat.add_zero _
      rw [setVch_concat]
      by_cases neg : n < 0
      · rw [if_pos neg, if_pos (by decide), show ((0x80 : UInt8) &&& 0x7f) = 0 from rfl, same]
        omega
      · rw [if_neg neg, if_neg (by decide), same]
        omega
    · rw [if_neg high]
      by_cases neg : n < 0
      · rw [if_pos neg]
        have bits := orHighBit_toNat (Nat.lt_of_not_ge high)
        have restored : (last ||| 0x80) &&& 0x7f = last := by
          apply UInt8.toNat_inj.mp
          rw [lowBits_toNat, bits]
          omega
        refine ⟨(isMinimal_concat _ _).mpr (Or.inl (by rw [bits]; omega)), ?_⟩
        rw [setVch_concat, if_pos (by rw [bits]; omega), restored, value]
        omega
      · rw [if_neg neg]
        refine ⟨(isMinimal_concat _ _).mpr (Or.inl (by omega)), ?_⟩
        rw [setVch_concat, if_neg high, value]
        omega

theorem orBytes_toNat (below : result.toNat < 256 ^ i) (fits : i + bytes.length ≤ 8) :
    (orBytes i result bytes).toNat = result.toNat + 256 ^ i * leValue bytes := by
  induction bytes generalizing i result with
  | nil => rfl
  | cons b rest ih =>
    rw [List.length_cons] at fits
    have small := b.toNat_lt
    have power : (2 : Nat) ^ (8 * i) = 256 ^ i := by rw [Nat.pow_mul]
    have most : 256 ^ i * b.toNat ≤ 256 ^ i * 255 := Nat.mul_le_mul_left _ (by omega)
    have room : 256 ^ (i + 1) ≤ 256 ^ 8 := Nat.pow_le_pow_right (by omega) (by omega)
    rw [Nat.pow_succ] at room
    have shifted : (BitVec.ofNat 64 b.toNat <<< (8 * i)).toNat = 256 ^ i * b.toNat := by
      have same : b.toNat % 2 ^ 64 = b.toNat := Nat.mod_eq_of_lt (by omega)
      rw [BitVec.toNat_shiftLeft, BitVec.toNat_ofNat, same, Nat.shiftLeft_eq, power, Nat.mul_comm]
      exact Nat.mod_eq_of_lt (by omega)
    have joined : (result ||| BitVec.ofNat 64 b.toNat <<< (8 * i)).toNat = result.toNat + 256 ^ i * b.toNat := by
      rw [BitVec.toNat_or, shifted, ← power, Nat.or_comm, ← Nat.two_pow_add_eq_or_of_lt (by omega), Nat.add_comm]
    have next := @ih (i + 1) (result ||| BitVec.ofNat 64 b.toNat <<< (8 * i)) (by rw [joined, Nat.pow_succ]; omega) (by omega)
    rw [orBytes, next, joined, leValue, Nat.pow_succ]
    ring

theorem and_not_top {x : BitVec 64} (inside : j < 64) (below : m < 2 ^ j) (value : x.toNat = m + 2 ^ j)
    (isTop : top.toNat = 2 ^ j) : (x &&& ~~~top).toNat = m := by
  have room : 2 ^ j < 2 ^ 64 := Nat.pow_lt_pow_right (by omega) inside
  have rest : (BitVec.ofNat 64 m).toNat = m := by
    rw [BitVec.toNat_ofNat]
    exact Nat.mod_eq_of_lt (by omega)
  have joined : x = BitVec.ofNat 64 m ||| top := by
    apply BitVec.eq_of_toNat_eq
    rw [BitVec.toNat_or, rest, isTop, value, Nat.or_comm, ← Nat.mul_one (2 ^ j), ← Nat.two_pow_add_eq_or_of_lt below, Nat.mul_one,
      Nat.add_comm]
  have cleared : x &&& ~~~top = BitVec.ofNat 64 m := by
    rw [joined]
    apply BitVec.eq_of_getLsbD_eq
    intro i small
    have bit : top.getLsbD i = decide (j = i) := by rw [← BitVec.testBit_toNat, isTop, Nat.testBit_two_pow]
    rw [BitVec.getLsbD_and, BitVec.getLsbD_or, BitVec.getLsbD_not, bit, decide_eq_true small, Bool.true_and]
    by_cases isJ : j = i
    · have none_ : (BitVec.ofNat 64 m).getLsbD i = false := by
        rw [← BitVec.testBit_toNat, rest, ← isJ]
        exact Nat.testBit_lt_two_pow below
      rw [none_, decide_eq_true isJ]
      rfl
    · rw [decide_eq_false isJ, Bool.or_false, Bool.not_false, Bool.and_true]
  rw [cleared, rest]

theorem set_vch_toInt (short : vch.length ≤ 8) : (set_vch vch).toInt = setVch vch := by
  induction vch using List.reverseRecOn with
  | nil => rfl
  | append_singleton front last _ =>
    rw [List.length_append, List.length_singleton] at short
    have byte := last.toNat_lt
    have result : (orBytes 0 0 (front ++ [last])).toNat = leValue front + 256 ^ front.length * last.toNat := by
      rw [orBytes_toNat (by decide) (by rw [List.length_append, List.length_singleton]; omega), leValue_concat, Nat.pow_zero, Nat.one_mul]
      exact Nat.zero_add _
    have below := leValue_lt front
    have room : 256 ^ front.length ≤ 256 ^ 7 := Nat.pow_le_pow_right (by omega) (by omega)
    have most : 256 ^ front.length * (last.toNat % 128) ≤ 256 ^ front.length * 127 := Nat.mul_le_mul_left _ (by omega)
    unfold set_vch
    rw [List.getLast?_concat]
    dsimp only
    rw [List.length_append, List.length_singleton, Nat.add_sub_cancel, setVch_concat]
    by_cases high : 128 ≤ last.toNat
    · rw [if_pos ((highBit_iff last).mpr high), if_pos high, leValue_concat, lowBits_toNat]
      have power : (2 : Nat) ^ (8 * front.length + 7) = 256 ^ front.length * 128 := by
        rw [Nat.pow_add, Nat.pow_mul]
      have split : 256 ^ front.length * last.toNat = 256 ^ front.length * (last.toNat % 128) + 256 ^ front.length * 128 := by
        rw [← Nat.mul_add]
        congr 1
        omega
      have isTop : ((0x80 : BitVec 64) <<< (8 * front.length)).toNat = 2 ^ (8 * front.length + 7) := by
        rw [BitVec.toNat_shiftLeft, show (0x80 : BitVec 64).toNat = 2 ^ 7 from rfl, Nat.shiftLeft_eq, ← Nat.pow_add, Nat.add_comm 7]
        exact Nat.mod_eq_of_lt (Nat.pow_lt_pow_right (by omega) (by omega))
      have magnitude := and_not_top (m := leValue front + 256 ^ front.length * (last.toNat % 128)) (show 8 * front.length + 7 < 64 by omega)
        (by rw [power]; omega) (by rw [result, power]; omega) isTop
      have isInt : (orBytes 0 0 (front ++ [last]) &&& ~~~((0x80 : BitVec 64) <<< (8 * front.length))).toInt =
          (leValue front + 256 ^ front.length * (last.toNat % 128) : Nat) := by
        rw [BitVec.toInt_eq_toNat_of_lt (by rw [magnitude]; omega), magnitude]
      rw [BitVec.toInt_neg, isInt]
      exact Int.bmod_eq_of_le (by omega) (by omega)
    · have isLow : last.toNat % 128 = last.toNat := by omega
      rw [isLow] at most
      rw [if_neg (mt (highBit_iff last).mp high), if_neg high, leValue_concat, BitVec.toInt_eq_toNat_of_lt (by rw [result]; omega), result]

theorem fromVch_eq (short : vch.length ≤ 8) (fRequireMinimal : Bool) (nMaxNumSize : Nat) :
    fromVch vch fRequireMinimal nMaxNumSize = ofVch vch fRequireMinimal nMaxNumSize := by
  unfold fromVch ofVch
  rw [set_vch_toInt short]

theorem length_serialize_le_iff (small : n.natAbs < 2 ^ 64) (k : Nat) :
    (serialize n).length ≤ k + 1 ↔ 2 * n.natAbs < 256 ^ (k + 1) := by
  obtain ⟨minimal, value⟩ := setVch_serialize small
  generalize serialize n = vch at minimal value ⊢
  induction vch using List.reverseRecOn with
  | nil =>
    have isZero : n = 0 := value.symm
    rw [isZero]
    exact iff_of_true (Nat.zero_le _) (Nat.pow_pos (by omega))
  | append_singleton front last _ =>
    obtain ⟨most, least⟩ := setVch_bounds front last
    rw [value] at most least
    rw [List.length_append, List.length_singleton]
    constructor
    · intro few
      have larger : 256 ^ (front.length + 1) ≤ 256 ^ (k + 1) := Nat.pow_le_pow_right (by omega) few
      omega
    · intro low
      have fewer : 256 ^ front.length < 256 ^ (k + 1) := Nat.lt_of_le_of_lt (least minimal) low
      have := (Nat.pow_lt_pow_iff_right (show 1 < 256 by omega)).mp fewer
      omega

/-- A number within 64 bits is read back from its form; a minimal vector of at most eight bytes is the form of its number; and the form has
at most four bytes for the numbers of 32 bits alone, the least one left out. -/
theorem scriptNum_minimal :
    (∀ n : Int, -2 ^ 63 < n → n < 2 ^ 63 → fromVch (serialize n) true 8 = some n) ∧
    (∀ (vch : valtype) (nMaxNumSize : Nat) (n : Int), vch.length ≤ 8 → fromVch vch true nMaxNumSize = some n → serialize n = vch) ∧
    ∀ n : Int, -2 ^ 63 < n → n < 2 ^ 63 → ((serialize n).length ≤ 4 ↔ |n| < 2 ^ 31) := by
  refine ⟨?_, ?_, ?_⟩
  · intro n above below
    obtain ⟨minimal, value⟩ := setVch_serialize (n := n) (by omega)
    have short : (serialize n).length ≤ 8 := (length_serialize_le_iff (by omega) 7).mpr (by omega)
    rw [fromVch_eq short, ofVch, if_neg (Nat.not_lt.mpr short), minimal, value]
    rfl
  · intro vch nMaxNumSize n short read
    rw [fromVch_eq short, ofVch] at read
    split at read
    · cases read
    · split at read
      · cases read
      · next minimal =>
        rw [Bool.true_and, Bool.not_eq_true', Bool.not_eq_false] at minimal
        rw [← Option.some.inj read]
        exact serialize_setVch minimal short
  · intro n above below
    rw [length_serialize_le_iff (by omega) 3, Int.abs_eq_natAbs]
    omega

theorem scriptNum_minimal_255 : serialize (-255) = [0xff, 0x80] :=
  scriptNum_minimal.2.1 [0xff, 0x80] 4 (-255) (by decide) (by decide)

end CScriptNum

end SchillingCoin
