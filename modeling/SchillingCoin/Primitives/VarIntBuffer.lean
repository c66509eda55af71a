import SchillingCoin.Primitives.VarInt
import Mathlib.Data.List.Induction

/-!
`WriteVarInt` with its buffer, and the byte strings that it writes: the only byte below `0x80` is the last.
-/

namespace SchillingCoin

open Codec

namespace DataStream

/-- The first loop of `WriteVarInt` over the `room` bytes of `tmp`; nothing comes back where a byte would be stored behind them. -/
def storeVarInt (room : Nat) (tmp : List UInt8) (n : Nat) : Option (List UInt8) :=
  if tmp.length < room then
    let tmp := tmp ++ [UInt8.ofNat (n % 128 + if tmp.length = 0 then 0 else 0x80)]
    if n ≤ 0x7F then some tmp else storeVarInt room tmp (n / 128 - 1)
  else none
termination_by n
decreasing_by omega

/-- `WriteVarInt` of an unsigned number of `w` bits. -/
def writeVarIntOf (w n : Nat) : Option Writes := (storeVarInt ((w + 6) / 7) [] n).map fun tmp => tmp.reverse.map fun b => [b]

structure VarIntString where
  bytes : List UInt8
  form : ∃ front last, bytes = front ++ [last] ∧ (∀ b ∈ front, 128 ≤ b.toNat) ∧ last.toNat < 128

theorem VarIntString.ext {s : VarIntString} (same : s.bytes = s'.bytes) : s = s' := by
  cases s
  cases s'
  cases same
  rfl

/-- The number that a string is read as, in unbounded arithmetic: modulo `0`. -/
def VarIntString.read (s : VarIntString) : Nat :=
  match readVarInt 0 s.bytes with
  | .ok (n, _) => n
  | .error _ => 0

def continued (n : Nat) (b : UInt8) : Nat := n * 128 + b.toNat % 128 + 1

theorem readVarIntFrom_front (flagged : ∀ b ∈ front, 128 ≤ b.toNat) (n : Nat) (rest : List UInt8) :
    readVarIntFrom 0 n (front ++ rest) = readVarIntFrom 0 (front.foldl continued n) rest := by
  induction front generalizing n with
  | nil => rfl
  | cons b front ih =>
    have high := flagged b List.mem_cons_self
    rw [List.cons_append, readVarIntFrom, if_pos high, Nat.mod_zero, Nat.mod_zero, List.foldl_cons]
    exact ih (fun b' member => flagged b' (List.mem_cons_of_mem _ member)) _

theorem readVarInt_form (flagged : ∀ b ∈ front, 128 ≤ b.toNat) (low : last.toNat < 128) (rest : List UInt8) :
    readVarInt 0 (front ++ last :: rest) = .ok (front.foldl continued 0 * 128 + last.toNat, rest) := by
  rw [readVarInt, readVarIntFrom_front flagged, readVarIntFrom, if_neg (Nat.not_le.mpr low), Nat.mod_zero, Nat.mod_eq_of_lt low]

theorem VarIntString.reads (s : VarIntString) : Reads (readVarInt 0) s.read s.bytes := by
  intro rest
  obtain ⟨front, last, isForm, flagged, low⟩ := s.form
  have value : s.read = front.foldl continued 0 * 128 + last.toNat := by
    rw [VarIntString.read, isForm, readVarInt_form flagged low]
  rw [value, isForm, List.append_assoc, List.singleton_append]
  exact readVarInt_form flagged low rest

theorem ofNat_flagged (low : n % 128 = b.toNat % 128) (high : 128 ≤ b.toNat) : UInt8.ofNat (n % 128 + 0x80) = b := by
  have small := b.toNat_lt
  apply UInt8.toNat_inj.mp
  rw [UInt8.toNat_ofNat']
  omega

theorem varIntBytes_front (some_ : front ≠ []) (flagged : ∀ b ∈ front, 128 ≤ b.toNat) :
    1 ≤ front.foldl continued 0 ∧ varIntBytes 0x80 (front.foldl continued 0 - 1) = front := by
  -- the last byte of the front is the one that is stored first
  induction front using List.reverseRecOn with
  | nil => exact absurd rfl some_
  | append_singleton front b ih =>
    have high : 128 ≤ b.toNat := flagged b (by simp)
    have small := b.toNat_lt
    rw [List.foldl_append, List.foldl_cons, List.foldl_nil, continued, Nat.add_sub_cancel]
    refine ⟨by omega, ?_⟩
    cases front with
    | nil =>
      rw [List.foldl_nil, varIntBytes, if_pos (by omega), List.nil_append]
      have byte : UInt8.ofNat (0 * 128 + b.toNat % 128 + 0x80) = b := by
        apply UInt8.toNat_inj.mp
        rw [UInt8.toNat_ofNat']
        omega
      rw [byte]
    | cons b' front =>
      obtain ⟨above, written⟩ := ih (List.cons_ne_nil _ _) fun c member => flagged c (List.mem_append_left _ member)
      generalize (b' :: front).foldl continued 0 = k at above written ⊢
      have next : (k * 128 + b.toNat % 128) / 128 - 1 = k - 1 := by omega
      rw [varIntBytes, if_neg (by omega), next, written, ofNat_flagged (by omega) high]

theorem varIntBytes_form (flagged : ∀ b ∈ front, 128 ≤ b.toNat) (low : last.toNat < 128) :
    varIntBytes 0 (front.foldl continued 0 * 128 + last.toNat) = front ++ [last] := by
  have byte : UInt8.ofNat (last.toNat + 0) = last := by rw [Nat.add_zero, UInt8.ofNat_toNat]
  by_cases empty : front = []
  · rw [empty, List.foldl_nil, Nat.zero_mul, Nat.zero_add, varIntBytes, if_pos (by omega), byte, List.nil_append]
  · obtain ⟨above, written⟩ := varIntBytes_front empty flagged
    generalize front.foldl continued 0 = k at above written ⊢
    have next : (k * 128 + last.toNat) / 128 - 1 = k - 1 := by omega
    have remains : (k * 128 + last.toNat) % 128 = last.toNat := by omega
    rw [varIntBytes, if_neg (by omega), next, remains, written, byte]

theorem varIntBytes_flagged (n : Nat) : ∀ b ∈ varIntBytes 0x80 n, 128 ≤ b.toNat := by
  induction n using Nat.strongRecOn with
  | ind n ih =>
    have byte : ∀ k, k < 128 → 128 ≤ (UInt8.ofNat (k + 0x80)).toNat := by
      intro k small
      rw [UInt8.toNat_ofNat']
      omega
    intro b member
    rw [varIntBytes] at member
    split at member
    · next less =>
      rw [List.mem_singleton.mp member]
      exact byte n (by omega)
    · rcases List.mem_append.mp member with before | isLast
      · exact ih (n / 128 - 1) (by omega) b before
      · rw [List.mem_singleton.mp isLast]
        exact byte (n % 128) (by omega)

theorem varIntBytes_unflagged (n : Nat) :
    ∃ front last, varIntBytes 0 n = front ++ [last] ∧ (∀ b ∈ front, 128 ≤ b.toNat) ∧ last.toNat < 128 := by
  have byte : ∀ k, k < 128 → (UInt8.ofNat (k + 0)).toNat < 128 := by
    intro k small
    rw [UInt8.toNat_ofNat']
    omega
  by_cases less : n ≤ 0x7F
  · exact ⟨[], UInt8.ofNat (n + 0), by rw [varIntBytes, if_pos less, List.nil_append], by simp, byte n (by omega)⟩
  · exact ⟨varIntBytes 0x80 (n / 128 - 1), UInt8.ofNat (n % 128 + 0), by rw [varIntBytes, if_neg less], varIntBytes_flagged _, byte _ (by omega)⟩

/-- What `WriteVarInt` writes of a number. -/
def VarIntString.write (n : Nat) : VarIntString where
  bytes := (writeVarInt n).bytes
  form := by
    rw [writeVarInt_bytes]
    exact varIntBytes_unflagged n

theorem VarIntString.write_read (s : VarIntString) : VarIntString.write s.read = s := by
  obtain ⟨front, last, isForm, flagged, low⟩ := s.form
  apply VarIntString.ext
  show (writeVarInt s.read).bytes = s.bytes
  rw [VarIntString.read, isForm, readVarInt_form flagged low, writeVarInt_bytes]
  exact varIntBytes_form flagged low

theorem VarIntString.write_injective : Function.Injective VarIntString.write := by
  intro m n same
  have strings : (writeVarInt m).bytes = (writeVarInt n).bytes := congrArg VarIntString.bytes same
  have first := @readVarInt_reads m (m + n + 1) (by omega) []
  have second := @readVarInt_reads n (m + n + 1) (by omega) []
  rw [strings, second] at first
  cases first
  rfl

theorem VarIntString.read_write (n : Nat) : (VarIntString.write n).read = n :=
  VarIntString.write_injective (VarIntString.write_read _)

theorem storeVarInt_eq {n : Nat} {tmp : List UInt8}
    (fits : tmp.length + (varIntBytes (if tmp.length = 0 then 0 else 0x80) n).length ≤ room) :
    storeVarInt room tmp n = some (tmp ++ (varIntBytes (if tmp.length = 0 then 0 else 0x80) n).reverse) := by
  induction n using Nat.strongRecOn generalizing tmp with
  | ind n ih =>
    generalize isFlag : (if tmp.length = 0 then 0 else 0x80) = flag at fits ⊢
    rw [varIntBytes] at fits ⊢
    by_cases less : n ≤ 0x7F
    · rw [if_pos less] at fits ⊢
      rw [List.length_singleton] at fits
      have byte : n % 128 = n := by omega
      rw [storeVarInt, if_pos (by omega), isFlag, byte]
      dsimp only
      rw [if_pos less, List.reverse_singleton]
    · rw [if_neg less] at fits ⊢
      rw [List.length_append, List.length_singleton] at fits
      have later : ¬(tmp ++ [UInt8.ofNat (n % 128 + flag)]).length = 0 := by simp
      have rest := @ih (n / 128 - 1) (by omega) (tmp ++ [UInt8.ofNat (n % 128 + flag)])
      rw [if_neg later, List.length_append, List.length_singleton] at rest
      rw [storeVarInt, if_pos (by omega), isFlag]
      dsimp only
      rw [if_neg less, rest (by omega), List.reverse_append, List.reverse_singleton, List.append_assoc]

theorem pow_le_of_length (flag : Nat) (long : k < (varIntBytes flag n).length) : 128 ^ k ≤ n ∨ k = 0 := by
  induction k generalizing n flag with
  | zero => exact Or.inr rfl
  | succ k ih =>
    left
    rw [varIntBytes] at long
    split at long
    · rw [List.length_singleton] at long
      omega
    · next more =>
      rw [List.length_append, List.length_singleton] at long
      rcases ih (n := n / 128 - 1) 0x80 (by omega) with above | isZero
      · rw [Nat.pow_succ]
        omega
      · rw [isZero]
        omega

theorem length_varIntBytes_le {w n : Nat} (positive : 0 < w) (small : n < 2 ^ w) (flag : Nat) : (varIntBytes flag n).length ≤ (w + 6) / 7 := by
  by_contra longer
  rcases pow_le_of_length flag (Nat.lt_of_not_ge longer) with above | isZero
  · have power : (128 : Nat) ^ ((w + 6) / 7) = 2 ^ (7 * ((w + 6) / 7)) := by rw [show (128 : Nat) = 2 ^ 7 from rfl, ← Nat.pow_mul]
    have larger : 2 ^ w ≤ 2 ^ (7 * ((w + 6) / 7)) := Nat.pow_le_pow_right (by omega) (by omega)
    omega
  · omega

/-- The strings whose only byte below `0x80` is the last are the natural numbers; and a number of `w` bits is written within the buffer,
in as many bytes as `GetSizeOfVarInt` counts, and read back in arithmetic of `w` bits. -/
theorem varInt_bijection :
    (∀ s : VarIntString, Reads (readVarInt 0) s.read s.bytes) ∧ Function.Bijective VarIntString.read ∧
    (∀ n, (VarIntString.write n).bytes = (writeVarInt n).bytes ∧ (VarIntString.write n).read = n) ∧
    (∀ s : VarIntString, VarIntString.write s.read = s) ∧
    ∀ w n, 0 < w → n < 2 ^ w → ∃ written : Writes, writeVarIntOf w n = some written ∧ written.bytes = (writeVarInt n).bytes ∧
      written.bytes.length ≤ (w + 6) / 7 ∧ written.bytes.length = getSizeOfVarInt n ∧ Reads (readVarInt (2 ^ w)) n written.bytes := by
  have onto : Function.Bijective VarIntString.read :=
    ⟨Function.LeftInverse.injective VarIntString.write_read, Function.RightInverse.surjective VarIntString.read_write⟩
  refine ⟨VarIntString.reads, onto, fun n => ⟨rfl, VarIntString.read_write n⟩, VarIntString.write_read, ?_⟩
  intro w n positive small
  have room := length_varIntBytes_le positive small 0
  have filled := @storeVarInt_eq ((w + 6) / 7) n [] (by simpa using room)
  rw [List.length_nil, if_pos rfl, List.nil_append] at filled
  refine ⟨(varIntBytes 0 n).map fun b => [b], ?_, ?_⟩
  · rw [writeVarIntOf, filled, Option.map_some, List.reverse_reverse]
  · rw [bytes_singletons, getSizeOfVarInt_eq, writeVarInt_bytes]
    refine ⟨rfl, room, rfl, ?_⟩
    rw [← writeVarInt_bytes]
    exact readVarInt_reads small

theorem varInt_bijection_bytes : ∃ written : Writes, writeVarIntOf 8 255 = some written ∧ written.bytes = (writeVarInt (255 : Nat)).bytes ∧
    written.bytes.length ≤ (8 + 6) / 7 ∧ written.bytes.length = getSizeOfVarInt (255 : Nat) ∧
    Reads (readVarInt (2 ^ 8)) 255 written.bytes :=
  varInt_bijection.2.2.2.2 8 255 (by decide) (by decide)

end DataStream

end SchillingCoin
