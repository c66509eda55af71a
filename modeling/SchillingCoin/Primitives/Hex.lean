import SchillingCoin.Lib.Codec
import Mathlib.Data.Nat.Digits.Defs

/-!
Numbers and byte strings as hexadecimal text, after `HexStr` and `ReverseEndianString` in `utilstrencodings.h` and `SetHex` and `GetHex` in
`uint256.cpp`.
-/

namespace SchillingCoin

open Codec

def hexByte (byte : UInt8) : List UInt8 :=
  [byte.toNat / 16, byte.toNat % 16].map fun digit => UInt8.ofNat (if digit < 10 then 48 + digit else 87 + digit)

def hexStr (bytes : List UInt8) : List UInt8 := bytes.flatMap hexByte

def substr (text : List UInt8) (pos len : Nat) : List UInt8 := (text.drop pos).take len

/-- The pairs of characters from the last to the first. Every text that is reversed has an even length. -/
def reverseEndianString (text : List UInt8) : List UInt8 :=
  (List.range (text.length / 2)).flatMap fun i => substr text (text.length - 2 * i - 2) 2

def isspace (c : UInt8) : Bool := c = 32 || (9 ≤ c && c ≤ 13)

def hexDigit (c : UInt8) : Option Nat :=
  if 48 ≤ c ∧ c ≤ 57 then some (c.toNat - 48)
  else if 97 ≤ c ∧ c ≤ 102 then some (c.toNat - 87)
  else if 65 ≤ c ∧ c ≤ 70 then some (c.toNat - 55)
  else none

def skip0x : List UInt8 → List UInt8
  | 48 :: c :: psz => if c = 120 ∨ c = 88 then psz else 48 :: c :: psz
  | psz => psz

/-- The lowest digits, as many as fit into a number of so many bytes. -/
def setHex (size : Nat) (psz : List UInt8) : Nat :=
  let digits := (skip0x (psz.dropWhile isspace)).map hexDigit |>.takeWhile Option.isSome
  Nat.ofDigits 16 ((digits.map fun d => d.getD 0).reverse.take (2 * size))

def getHex (size n : Nat) : List UInt8 := hexStr (leBytes size n).reverse

inductive Hexes : List UInt8 → List UInt8 → Prop
  | nil : Hexes [] []
  | cons {high low b : UInt8} {text bytes : List UInt8} (highDigit : hexDigit high = some (b.toNat / 16))
      (lowDigit : hexDigit low = some (b.toNat % 16)) (rest : Hexes text bytes) : Hexes (high :: low :: text) (b :: bytes)

theorem drop_hexStr (bytes : List UInt8) (k : Nat) : (hexStr bytes).drop (2 * k) = hexStr (bytes.drop k) := by
  induction k generalizing bytes with
  | zero => rfl
  | succ k ih =>
    cases bytes with
    | nil => simp [hexStr]
    | cons b bytes =>
      rw [List.drop_succ_cons, ← ih, show 2 * (k + 1) = 2 * k + 1 + 1 by omega]
      rfl

theorem take_hexStr (bytes : List UInt8) (k : Nat) : (hexStr bytes).take (2 * k) = hexStr (bytes.take k) := by
  induction k generalizing bytes with
  | zero => rfl
  | succ k ih =>
    cases bytes with
    | nil => simp [hexStr]
    | cons b bytes =>
      have later : hexStr (b :: bytes.take k) = hexByte b ++ hexStr (bytes.take k) := rfl
      rw [List.take_succ_cons, later, ← ih, show 2 * (k + 1) = 2 * k + 1 + 1 by omega]
      rfl

theorem substr_hexStr (bytes : List UInt8) (pos len : Nat) :
    substr (hexStr bytes) (2 * pos) (2 * len) = hexStr ((bytes.drop pos).take len) := by
  rw [substr, drop_hexStr, take_hexStr]

theorem hexDigit_symbol (small : d < 16) : hexDigit (UInt8.ofNat (if d < 10 then 48 + d else 87 + d)) = some d := by
  have all : ∀ d < 16, hexDigit (UInt8.ofNat (if d < 10 then 48 + d else 87 + d)) = some d := by decide
  exact all d small

theorem hexDigit_ge (h : (hexDigit c).isSome = true) : 48 ≤ c.toNat := by
  unfold hexDigit at h
  simp only [UInt8.le_iff_toNat_le] at h
  have n48 : (48 : UInt8).toNat = 48 := rfl
  have n97 : (97 : UInt8).toNat = 97 := rfl
  have n65 : (65 : UInt8).toNat = 65 := rfl
  split at h
  · omega
  · split at h
    · omega
    · split at h
      · omega
      · exact nomatch h

theorem hexDigit_not_space (h : (hexDigit c).isSome = true) : isspace c = false := by
  have high := hexDigit_ge h
  have n13 : (13 : UInt8).toNat = 13 := rfl
  have notBlank : c ≠ 32 := by
    rintro rfl
    exact absurd high (by decide)
  simp only [isspace, notBlank, decide_false, Bool.false_or, Bool.and_eq_false_iff, decide_eq_false_iff_not, UInt8.le_iff_toNat_le]
  omega

namespace Hexes

variable {text bytes : List UInt8}

theorem length (h : Hexes text bytes) : text.length = 2 * bytes.length := by
  induction h with
  | nil => rfl
  | cons _ _ _ ih =>
    rw [List.length_cons, List.length_cons, List.length_cons, ih]
    omega

theorem append (h : Hexes text bytes) (h' : Hexes text' bytes') : Hexes (text ++ text') (bytes ++ bytes') := by
  induction h with
  | nil => exact h'
  | cons high low _ ih => exact .cons high low ih

theorem hexStr (bytes : List UInt8) : Hexes (hexStr bytes) bytes := by
  induction bytes with
  | nil => exact .nil
  | cons b bytes ih =>
    have small := b.toNat_lt
    exact .cons (hexDigit_symbol (by omega)) (hexDigit_symbol (by omega)) ih

section

variable (h : Hexes text bytes)

include h

theorem take (k : Nat) : Hexes (text.take (2 * k)) (bytes.take k) := by
  induction h generalizing k with
  | nil => simpa using Hexes.nil
  | cons high low _ ih =>
    cases k with
    | zero => exact .nil
    | succ k =>
      rw [show 2 * (k + 1) = 2 * k + 1 + 1 by omega, List.take_succ_cons, List.take_succ_cons, List.take_succ_cons]
      exact .cons high low (ih k)

theorem drop (k : Nat) : Hexes (text.drop (2 * k)) (bytes.drop k) := by
  induction h generalizing k with
  | nil => simpa using Hexes.nil
  | cons high low rest ih =>
    cases k with
    | zero => exact .cons high low rest
    | succ k =>
      rw [show 2 * (k + 1) = 2 * k + 1 + 1 by omega, List.drop_succ_cons, List.drop_succ_cons, List.drop_succ_cons]
      exact ih k

theorem substr (pos len : Nat) :
    Hexes (substr text (2 * pos) (2 * len)) ((bytes.drop pos).take len) := (h.drop pos).take len

theorem reverseEndian : Hexes (reverseEndianString text) bytes.reverse := by
  induction h with
  | nil => exact .nil
  | @cons high low b text bytes highDigit lowDigit rest ih =>
    have even := rest.length
    have split : reverseEndianString (high :: low :: text) = reverseEndianString text ++ [high, low] := by
      unfold reverseEndianString
      rw [List.length_cons, List.length_cons, even, show (2 * bytes.length + 1 + 1) / 2 = bytes.length + 1 by omega,
        show 2 * bytes.length / 2 = bytes.length by omega, List.range_succ, List.flatMap_append]
      congr 1
      · apply List.flatMap_congr
        intro i member
        have inside := List.mem_range.mp member
        rw [show 2 * bytes.length + 1 + 1 - 2 * i - 2 = 2 * bytes.length - 2 * i - 2 + 1 + 1 by omega]
        rfl
      · rw [List.flatMap_singleton, show 2 * bytes.length + 1 + 1 - 2 * bytes.length - 2 = 0 by omega]
        rfl
    rw [split, List.reverse_cons]
    exact ih.append (.cons highDigit lowDigit .nil)

theorem takeWhile_digits :
    ((text.map hexDigit).takeWhile Option.isSome).map (fun d => d.getD 0) = bytes.flatMap fun b => [b.toNat / 16, b.toNat % 16] := by
  induction h with
  | nil => rfl
  | cons highDigit lowDigit _ ih =>
    rw [List.map_cons, List.map_cons, highDigit, lowDigit, List.takeWhile_cons_of_pos rfl, List.takeWhile_cons_of_pos rfl, List.map_cons,
      List.map_cons, ih, List.flatMap_cons]
    rfl

theorem skip : skip0x (text.dropWhile isspace) = text := by
  cases h with
  | nil => rfl
  | @cons high low b text bytes highDigit lowDigit _ =>
    rw [List.dropWhile_cons_of_neg (by rw [hexDigit_not_space (by rw [highDigit]; rfl)]; decide)]
    unfold skip0x
    split
    · next c psz same =>
      obtain ⟨rfl, rfl, rfl⟩ : high = 48 ∧ low = c ∧ text = psz := by simpa using same
      rw [if_neg]
      intro isX
      have none : hexDigit low = none := by
        rcases isX with rfl | rfl
        · decide
        · decide
      exact nomatch none.symm.trans lowDigit
    · rfl

theorem value (fits : bytes.length ≤ size) : setHex size text = leValue bytes.reverse := by
  have digits : ∀ l : List UInt8, Nat.ofDigits 16 (l.flatMap fun b => [b.toNat % 16, b.toNat / 16]) = leValue l := by
    intro l
    induction l with
    | nil => rfl
    | cons b l ih =>
      rw [List.flatMap_cons, List.cons_append, List.cons_append, List.nil_append, Nat.ofDigits_cons, Nat.ofDigits_cons, ih, leValue]
      omega
  have reversed : ∀ l : List UInt8, (l.flatMap fun b => [b.toNat / 16, b.toNat % 16]).reverse = l.reverse.flatMap fun b => [b.toNat % 16, b.toNat / 16] := by
    intro l
    induction l with
    | nil => rfl
    | cons b l ih =>
      rw [List.flatMap_cons, List.reverse_append, ih]
      conv_rhs => rw [List.reverse_cons, List.flatMap_append]
      rfl
  have length : (bytes.reverse.flatMap fun b => [b.toNat % 16, b.toNat / 16]).length = 2 * bytes.length := by
    rw [List.length_flatMap, ← @List.length_reverse _ bytes]
    simp [Nat.mul_comm]
  unfold setHex
  dsimp only
  rw [h.skip, h.takeWhile_digits, reversed, List.take_of_length_le (by omega), digits]

theorem reverseValue (fits : bytes.length ≤ size) : setHex size (reverseEndianString text) = leValue bytes := by
  rw [h.reverseEndian.value (by rw [List.length_reverse]; exact fits), List.reverse_reverse]

end

end Hexes

end SchillingCoin
