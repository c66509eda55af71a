import SchillingCoin.Primitives.Serialize

/-!
Numbers of seven bits a byte, the highest first, after `WriteVarInt` and `ReadVarInt` in `serialize.h`. Every byte but the last has its high
bit set, and one is taken off before each further byte, so that a number has one form.
-/

namespace SchillingCoin

open Codec

namespace DataStream

/-- `tmp` from its last entry to its first; `flag` is the high bit of the first. -/
def varIntBytes (flag n : Nat) : List UInt8 :=
  if n ≤ 0x7F then [UInt8.ofNat (n + flag)] else varIntBytes 0x80 (n / 128 - 1) ++ [UInt8.ofNat (n % 128 + flag)]
termination_by n
decreasing_by omega

/-- A negative number passes the comparison with `0x7F`, and its low bits are all that is written. -/
def writeVarInt (n : Int) : Writes :=
  if n < 0 then [[UInt8.ofNat (n % 128).toNat]] else (varIntBytes 0 n.toNat).map fun b => [b]

/-- The loop of `ReadVarInt`, in arithmetic of a given modulus. -/
def readVarIntFrom (modulus : Nat) : Nat → StreamReader Nat
  | _, [] => .error .endOfData
  | n, chData :: rest =>
    let n := (n * 128 + chData.toNat % 128) % modulus
    if 128 ≤ chData.toNat then readVarIntFrom modulus ((n + 1) % modulus) rest else .ok (n, rest)

def readVarInt (modulus : Nat) : StreamReader Nat := readVarIntFrom modulus 0

def readVarInt32 : StreamReader Int := do
  let n ← readVarInt (2 ^ 32)
  return (n : Int).bmod (2 ^ 32)

theorem bytes_singletons (block : List UInt8) : Writes.bytes (block.map fun b => [b]) = block := by
  induction block with
  | nil => rfl
  | cons b block ih => rw [List.map_cons, Writes.bytes_cons, ih, List.singleton_append]

theorem writeVarInt_bytes (n : Nat) : (writeVarInt n).bytes = varIntBytes 0 n := by
  rw [writeVarInt, if_neg (by omega), Int.toNat_natCast, bytes_singletons]

theorem readVarIntFrom_step (small : b < 256) (fits : n * 128 + b % 128 < modulus) :
    readVarIntFrom modulus n (UInt8.ofNat b :: rest) =
      if 128 ≤ b then readVarIntFrom modulus ((n * 128 + b % 128 + 1) % modulus) rest else .ok (n * 128 + b % 128, rest) := by
  have byte : (UInt8.ofNat b).toNat = b := by
    rw [UInt8.toNat_ofNat']
    exact Nat.mod_eq_of_lt small
  rw [readVarIntFrom, byte, Nat.mod_eq_of_lt fits]

theorem readVarIntFrom_flagged (fits : n + 1 < modulus) (rest : List UInt8) :
    readVarIntFrom modulus 0 (varIntBytes 0x80 n ++ rest) = readVarIntFrom modulus (n + 1) rest := by
  induction n using Nat.strongRecOn generalizing rest with
  | ind n ih =>
    unfold varIntBytes
    split
    · rw [List.singleton_append, readVarIntFrom_step (by omega) (by omega), if_pos (by omega)]
      have value : 0 * 128 + (n + 0x80) % 128 + 1 = n + 1 := by omega
      rw [value, Nat.mod_eq_of_lt fits]
    · have above : n / 128 - 1 + 1 = n / 128 := by omega
      rw [List.append_assoc, List.singleton_append, ih (n / 128 - 1) (by omega) (by omega), above,
        readVarIntFrom_step (by omega) (by omega), if_pos (by omega)]
      have value : n / 128 * 128 + (n % 128 + 0x80) % 128 + 1 = n + 1 := by omega
      rw [value, Nat.mod_eq_of_lt fits]

theorem readVarInt_reads (fits : n < modulus) : Reads (readVarInt modulus) n (writeVarInt n).bytes := by
  intro rest
  rw [writeVarInt_bytes, readVarInt, varIntBytes]
  split
  · rw [List.singleton_append, readVarIntFrom_step (by omega) (by omega), if_neg (by omega)]
    have value : 0 * 128 + (n + 0) % 128 = n := by omega
    rw [value]
  · have above : n / 128 - 1 + 1 = n / 128 := by omega
    rw [List.append_assoc, List.singleton_append, readVarIntFrom_flagged (by omega), above,
      readVarIntFrom_step (by omega) (by omega), if_neg (by omega)]
    have value : n / 128 * 128 + (n % 128 + 0) % 128 = n := by omega
    rw [value]

theorem readVarInt32_reads (nonneg : 0 ≤ n) (small : n < 2 ^ 31) : Reads readVarInt32 n (writeVarInt n).bytes := by
  obtain ⟨k, rfl⟩ := Int.eq_ofNat_of_zero_le nonneg
  have same : (k : Int).bmod (2 ^ 32) = k := Int.bmod_eq_of_le (by omega) (by omega)
  have read : Reads readVarInt32 ((k : Int).bmod (2 ^ 32)) (writeVarInt k).bytes := (readVarInt_reads (by omega)).bind_pure
  rwa [same] at read

def sizeOfVarIntFrom (nRet n : Nat) : Nat := if n ≤ 0x7F then nRet + 1 else sizeOfVarIntFrom (nRet + 1) (n / 128 - 1)
termination_by n
decreasing_by omega

/-- `GetSizeOfVarInt`, which ends at once for a negative number. -/
def getSizeOfVarInt (n : Int) : Nat := if n < 0 then 1 else sizeOfVarIntFrom 0 n.toNat

theorem length_varIntBytes (nRet flag n : Nat) : nRet + (varIntBytes flag n).length = sizeOfVarIntFrom nRet n := by
  induction n using Nat.strongRecOn generalizing nRet flag with
  | ind n ih =>
    unfold varIntBytes sizeOfVarIntFrom
    split
    · rfl
    · rw [← ih (n / 128 - 1) (by omega) (nRet + 1) 0x80, List.length_append, List.length_singleton]
      omega

theorem getSizeOfVarInt_eq (n : Int) : getSizeOfVarInt n = (writeVarInt n).bytes.length := by
  unfold getSizeOfVarInt writeVarInt
  split
  · rfl
  · rw [bytes_singletons, ← length_varIntBytes 0 0, Nat.zero_add]

def varIntBounds : List Nat := [128, 16512, 2113664, 270549120]

theorem getSizeOfVarInt_bounds {n : Nat} (small : n < 2 ^ 32) : getSizeOfVarInt n = (varIntBounds.filter (· ≤ n)).length + 1 := by
  -- every turn of the loop leaves a number that is `128` times smaller
  have turn : ∀ nRet n, ¬n ≤ 0x7F → sizeOfVarIntFrom nRet n = sizeOfVarIntFrom (nRet + 1) (n / 128 - 1) := by
    intro nRet n more
    conv_lhs => unfold sizeOfVarIntFrom
    rw [if_neg more]
  have last : ∀ nRet n, n ≤ 0x7F → sizeOfVarIntFrom nRet n = nRet + 1 := by
    intro nRet n less
    unfold sizeOfVarIntFrom
    rw [if_pos less]
  rw [getSizeOfVarInt, if_neg (by omega), Int.toNat_natCast, varIntBounds]
  by_cases one : n < 128
  · rw [last _ _ (by omega)]
    simp only [List.filter_cons, List.filter_nil, decide_eq_true_eq, show ¬128 ≤ n by omega, show ¬16512 ≤ n by omega,
      show ¬2113664 ≤ n by omega, show ¬270549120 ≤ n by omega, if_false, List.length_nil]
  by_cases two : n < 16512
  · rw [turn _ _ (by omega), last _ _ (by omega)]
    simp only [List.filter_cons, List.filter_nil, decide_eq_true_eq, show 128 ≤ n by omega, show ¬16512 ≤ n by omega,
      show ¬2113664 ≤ n by omega, show ¬270549120 ≤ n by omega, if_false, if_true, List.length_nil, List.length_cons]
  by_cases three : n < 2113664
  · rw [turn _ _ (by omega), turn _ _ (by omega), last _ _ (by omega)]
    simp only [List.filter_cons, List.filter_nil, decide_eq_true_eq, show 128 ≤ n by omega, show 16512 ≤ n by omega,
      show ¬2113664 ≤ n by omega, show ¬270549120 ≤ n by omega, if_false, if_true, List.length_nil, List.length_cons]
  by_cases four : n < 270549120
  · rw [turn _ _ (by omega), turn _ _ (by omega), turn _ _ (by omega), last _ _ (by omega)]
    simp only [List.filter_cons, List.filter_nil, decide_eq_true_eq, show 128 ≤ n by omega, show 16512 ≤ n by omega,
      show 2113664 ≤ n by omega, show ¬270549120 ≤ n by omega, if_false, if_true, List.length_nil, List.length_cons]
  · rw [turn _ _ (by omega), turn _ _ (by omega), turn _ _ (by omega), turn _ _ (by omega), last _ _ (by omega)]
    simp only [List.filter_cons, List.filter_nil, decide_eq_true_eq, show 128 ≤ n by omega, show 16512 ≤ n by omega,
      show 2113664 ≤ n by omega, show 270549120 ≤ n by omega, if_true, List.length_nil, List.length_cons]

end DataStream

end SchillingCoin
