import SchillingCoin.Lib.Radix
import SchillingCoin.Primitives.Hex

/-!
Byte strings in base 58, after `EncodeBase58` and `DecodeBase58` in `base58.cpp`. A text is a list of characters without its
terminating zero. Both functions assert that no carry is left over; where that fails they have no result.
-/

namespace SchillingCoin

namespace Base58

/-- All alphanumeric characters except for "0", "I", "O", and "l". -/
def pszBase58 : List UInt8 := "123456789ABCDEFGHJKLMNPQRSTUVWXYZabcdefghijkmnopqrstuvwxyz".toList.map fun c => UInt8.ofNat c.toNat

def symbol (d : Nat) : UInt8 := pszBase58.getD d 0

def digitOf (c : UInt8) : Option Nat := if c ∈ pszBase58 then some (pszBase58.idxOf c) else none

inductive DecodeFailure where
  | invalid
  /-- `assert(carry == 0)`. -/
  | carry
  deriving DecidableEq, Repr

/-- The characters before the first blank; `b256` is kept with its last byte first. -/
def decodeLoop : List UInt8 → List Nat → Except DecodeFailure (List Nat × List UInt8)
  | [], b256 => .ok (b256, [])
  | c :: psz, b256 =>
    if isspace c then .ok (b256, c :: psz)
    else
      match digitOf c with
      | none => .error .invalid
      | some ch =>
        let next := Radix.mulAdd 256 58 ch b256
        if next.2 = 0 then decodeLoop psz next.1 else .error .carry

def finishDecode (zeroes : Nat) (b256 : List Nat) (psz : List UInt8) : Except DecodeFailure (List UInt8) :=
  if psz.dropWhile isspace ≠ [] then .error .invalid
  else .ok (List.replicate zeroes 0 ++ (b256.reverse.dropWhile fun d => d = 0).map UInt8.ofNat)

variable (psz bytes rest : List UInt8)

def decodeBase58 : Except DecodeFailure (List UInt8) :=
  let psz := psz.dropWhile isspace
  let zeroes := (psz.takeWhile fun c => c = symbol 0).length
  let psz := psz.dropWhile fun c => c = symbol 0
  match decodeLoop psz (List.replicate (psz.length * 733 / 1000 + 1) 0) with
  | .error e => .error e
  | .ok decoded => finishDecode zeroes decoded.1 decoded.2

def encodeBase58 : Option (List UInt8) := do
  let zeroes := (bytes.takeWhile fun b => b = 0).length
  let rest := bytes.dropWhile fun b => b = 0
  let b58 ← Radix.convert 58 256 (rest.map UInt8.toNat) (List.replicate (rest.length * 138 / 100 + 1) 0)
  return List.replicate zeroes (symbol 0) ++ (b58.reverse.dropWhile fun d => d = 0).map symbol

set_option maxRecDepth 2000 in
theorem alphabet_spec : pszBase58.IsChain (· < ·) ∧ pszBase58.length = 58 ∧ ∀ c ∈ pszBase58, isspace c = false := by decide

theorem alphabet_nodup : pszBase58.Nodup :=
  ((@List.isChain_iff_pairwise UInt8 (· < ·) pszBase58 ⟨UInt8.lt_trans⟩).mp alphabet_spec.1).imp fun less => UInt8.ne_of_lt less

variable {d n : Nat} {numeral : List Nat}

theorem symbol_mem (small : d < 58) : ∃ inside : d < pszBase58.length, symbol d = pszBase58[d] := by
  have inside : d < pszBase58.length := by
    rw [alphabet_spec.2.1]
    exact small
  refine ⟨inside, ?_⟩
  rw [symbol, List.getD_eq_getElem?_getD, List.getElem?_eq_getElem inside]
  rfl

theorem digitOf_symbol (small : d < 58) : digitOf (symbol d) = some d := by
  obtain ⟨inside, place⟩ := symbol_mem small
  rw [place, digitOf, if_pos (List.getElem_mem inside), alphabet_nodup.idxOf_getElem d inside]

theorem symbol_not_space (small : d < 58) : isspace (symbol d) = false := by
  obtain ⟨inside, place⟩ := symbol_mem small
  rw [place]
  exact alphabet_spec.2.2 _ (List.getElem_mem inside)

theorem symbol_ne_one (small : d < 58) (nonzero : d ≠ 0) : symbol d ≠ symbol 0 := by
  intro same
  have both := digitOf_symbol small
  rw [same, digitOf_symbol (by decide)] at both
  exact nonzero (Option.some.inj both).symm

theorem digitOf_lt (h : digitOf c = some d) : d < 58 := by
  unfold digitOf at h
  split at h
  · next member =>
    rw [← Option.some.inj h, ← alphabet_spec.2.1]
    exact List.idxOf_lt_length_of_mem member
  · exact nomatch h

theorem encode_room (fits : value < 256 ^ n) : value < 58 ^ (n * 138 / 100 + 1) := by
  have rate : (256 : Nat) ^ 100 ≤ 58 ^ 138 :=
    calc (256 : Nat) ^ 100 = (256 ^ 50) ^ 2 := by rw [← pow_mul]
      _ ≤ (58 ^ 69) ^ 2 := Nat.pow_le_pow_left (by norm_num) 2
      _ = 58 ^ 138 := by rw [← pow_mul]
  exact lt_of_lt_of_le fits (Radix.pow_le_of_rate (by decide) (by decide) rate n)

theorem decode_room (fits : value < 58 ^ n) : value < 256 ^ (n * 733 / 1000 + 1) := by
  have part : (58 : Nat) ^ 125 ≤ 2 ^ 733 :=
    calc (58 : Nat) ^ 125 ≤ 2 * (2 ^ 183) ^ 4 := by norm_num
      _ = 2 ^ 733 := by rw [← pow_mul, ← pow_succ']
  have rate : (58 : Nat) ^ 1000 ≤ 256 ^ 733 :=
    calc (58 : Nat) ^ 1000 = (58 ^ 125) ^ 8 := by rw [← pow_mul]
      _ ≤ (2 ^ 733) ^ 8 := Nat.pow_le_pow_left part 8
      _ = (2 ^ 8) ^ 733 := by rw [← pow_mul, ← pow_mul]
      _ = 256 ^ 733 := by norm_num only
  exact lt_of_lt_of_le fits (Radix.pow_le_of_rate (by decide) (by decide) rate n)

theorem toNat_lt_all : ∀ d ∈ bytes.map UInt8.toNat, d < 256 := by
  intro d member
  obtain ⟨b, _, rfl⟩ := List.mem_map.mp member
  exact b.toNat_lt

theorem zeros_lt (base n : Nat) (positive : 0 < base) : ∀ d ∈ List.replicate n 0, d < base := by
  intro d member
  rw [List.eq_of_mem_replicate member]
  exact positive

theorem convert_zeros (base factor : Nat) (positive : 0 < base) (factorPositive : 0 < factor)
    (fits : Radix.valueFrom factor 0 numeral < base ^ size) :
    ∃ result, Radix.convert base factor numeral (List.replicate size 0) = some result ∧ (∀ d ∈ result, d < base) ∧
      Nat.ofDigits base result = Radix.valueFrom factor 0 numeral := by
  have start : Nat.ofDigits base (List.replicate size 0) = 0 := Radix.ofDigits_zeros size
  obtain ⟨result, converted, _, small, value⟩ := @Radix.convert_fits base factor (List.replicate size 0) numeral positive factorPositive
    (by rw [start, List.length_replicate]; exact fits) (zeros_lt base size positive)
  rw [start] at value
  exact ⟨result, converted, small, value⟩

def digits58 : List Nat := (Nat.digits 58 (Radix.valueFrom 256 0 (rest.map UInt8.toNat))).reverse

theorem encodeBase58_eq :
    encodeBase58 bytes = some (List.replicate (bytes.takeWhile fun b => b = 0).length (symbol 0) ++
      (digits58 (bytes.dropWhile fun b => b = 0)).map symbol) := by
  have fits := Radix.valueFrom_lt (toNat_lt_all (bytes.dropWhile fun b => b = 0))
  rw [List.length_map] at fits
  obtain ⟨b58, converted, small, value⟩ := convert_zeros 58 256 (by decide) (by decide) (encode_room fits)
  unfold encodeBase58
  simp only [converted, Option.bind_eq_bind, Option.bind_some]
  rw [Radix.stripped_eq_digits (by decide) small, value]
  rfl

theorem digits58_lt : ∀ d ∈ digits58 rest, d < 58 := fun _ member =>
  Nat.digits_lt_base (by decide) (List.mem_reverse.mp member)

theorem digits58_head : ∀ d ∈ (digits58 rest).head?, d ≠ 0 := by
  intro d head
  rw [digits58, List.head?_reverse] at head
  have nonzero : Radix.valueFrom 256 0 (rest.map UInt8.toNat) ≠ 0 := by
    intro none
    rw [none, Nat.digits_zero] at head
    exact nomatch head
  rw [List.getLast?_eq_some_getLast (Nat.digits_ne_nil_iff_ne_zero.mpr nonzero)] at head
  rw [← Option.some.inj head]
  exact Nat.getLast_digit_ne_zero 58 nonzero

theorem decodeLoop_symbols (small : ∀ d ∈ numeral, d < 58) (b256 : List Nat) :
    decodeLoop (numeral.map symbol) b256 =
      match Radix.convert 256 58 numeral b256 with
      | some result => .ok (result, [])
      | none => .error .carry := by
  induction numeral generalizing b256 with
  | nil => rfl
  | cons d numeral ih =>
    have here := small d List.mem_cons_self
    rw [List.map_cons, decodeLoop, symbol_not_space here, digitOf_symbol here, Radix.convert]
    simp only [Bool.false_eq_true, if_false]
    by_cases none : (Radix.mulAdd 256 58 d b256).2 = 0
    · rw [if_pos none, if_pos none]
      exact ih (fun d' member => small d' (List.mem_cons_of_mem _ member)) _
    · rw [if_neg none, if_neg none]

theorem zeros_append_rest :
    List.replicate (bytes.takeWhile fun b => b = 0).length 0 ++ (bytes.dropWhile fun b => b = 0) = bytes := by
  have zeros : List.replicate (bytes.takeWhile fun b => b = 0).length 0 = bytes.takeWhile fun b => b = 0 := by
    symm
    apply List.eq_replicate_of_mem
    intro b member
    simpa using List.mem_takeWhile_imp member
  rw [zeros, List.takeWhile_append_dropWhile]

theorem digits_valueFrom {rest : List UInt8} (head : ∀ b ∈ rest.head?, b ≠ 0) :
    (Nat.digits 256 (Radix.valueFrom 256 0 (rest.map UInt8.toNat))).reverse.map UInt8.ofNat = rest := by
  have highest : ∀ d ∈ (rest.map UInt8.toNat).head?, d ≠ 0 := by
    intro d isHead zero
    cases rest with
    | nil => exact nomatch isHead
    | cons b rest =>
      rw [← Option.some.inj isHead] at zero
      exact head b rfl (UInt8.toNat_inj.mp zero)
  rw [Radix.digits_valueFrom (by decide) (toNat_lt_all rest) highest, List.map_map]
  conv_rhs => rw [← List.map_id rest]
  exact List.map_congr_left fun b _ => UInt8.ofNat_toNat

theorem takeWhile_copies [DecidableEq α] {x : α} {rest : List α} (head : ∀ y ∈ rest.head?, y ≠ x) (n : Nat) :
    ((List.replicate n x ++ rest).takeWhile fun y => y = x) = List.replicate n x ∧
      ((List.replicate n x ++ rest).dropWhile fun y => y = x) = rest := by
  induction n with
  | zero =>
    cases rest with
    | nil => exact ⟨rfl, rfl⟩
    | cons y rest =>
      have other := head y rfl
      rw [List.replicate_zero, List.nil_append, List.takeWhile_cons_of_neg (by simpa using other),
        List.dropWhile_cons_of_neg (by simpa using other)]
      exact ⟨rfl, rfl⟩
  | succ n ih =>
    rw [List.replicate_succ, List.cons_append, List.takeWhile_cons_of_pos (by simp), List.dropWhile_cons_of_pos (by simp), ih.1, ih.2]
    exact ⟨rfl, rfl⟩

theorem head_ne_one (small : ∀ d ∈ numeral, d < 58) (head : ∀ d ∈ numeral.head?, d ≠ 0) :
    ∀ c ∈ (numeral.map symbol).head?, c ≠ symbol 0 := by
  intro c isHead
  cases numeral with
  | nil => exact nomatch isHead
  | cons d numeral =>
    rw [← Option.some.inj isHead]
    exact symbol_ne_one (small d List.mem_cons_self) (head d rfl)

theorem dropWhile_isspace {text : List UInt8} (head : ∀ c ∈ text.head?, isspace c = false) : text.dropWhile isspace = text := by
  cases text with
  | nil => rfl
  | cons c text => exact List.dropWhile_cons_of_neg (by rw [head c rfl]; decide)

theorem head_not_space (small : ∀ d ∈ numeral, d < 58) (n : Nat) :
    ∀ c ∈ (List.replicate n (symbol 0) ++ numeral.map symbol).head?, isspace c = false := by
  intro c head
  have member := List.mem_of_mem_head? head
  rcases List.mem_append.mp member with one | digit
  · rw [List.eq_of_mem_replicate one]
    exact symbol_not_space (by decide)
  · obtain ⟨d, inside, rfl⟩ := List.mem_map.mp digit
    exact symbol_not_space (small d inside)

theorem decodeBase58_encodeBase58 :
    ∃ text, encodeBase58 bytes = some text ∧ decodeBase58 text = .ok bytes ∧ ∀ c ∈ text, c ∈ pszBase58 := by
  have small := digits58_lt (bytes.dropWhile fun b => b = 0)
  have highest := digits58_head (bytes.dropWhile fun b => b = 0)
  refine ⟨_, encodeBase58_eq bytes, ?_, ?_⟩
  · obtain ⟨ones, digits⟩ := takeWhile_copies (head_ne_one small highest) (bytes.takeWhile fun b => b = 0).length
    -- The value of the digits is the value of the bytes, and the buffer has room for it.
    have value : Radix.valueFrom 58 0 (digits58 (bytes.dropWhile fun b => b = 0)) =
        Radix.valueFrom 256 0 ((bytes.dropWhile fun b => b = 0).map UInt8.toNat) := by
      rw [Radix.valueFrom_eq_ofDigits, digits58, List.reverse_reverse, Nat.ofDigits_digits]
    obtain ⟨b256, converted, inBytes, same⟩ := convert_zeros 256 58 (by decide) (by decide) (decode_room (Radix.valueFrom_lt small))
    unfold decodeBase58
    simp only [dropWhile_isspace (head_not_space small _), ones, digits, List.length_replicate]
    rw [decodeLoop_symbols small, List.length_map, converted]
    dsimp only
    rw [finishDecode, if_neg (by simp), Radix.stripped_eq_digits (by decide) inBytes, same, value, digits_valueFrom, zeros_append_rest]
    intro b head
    have := List.head?_dropWhile_not (fun b : UInt8 => decide (b = 0)) bytes
    rw [head] at this
    simpa using this
  · intro c member
    rcases List.mem_append.mp member with one | digit
    · rw [List.eq_of_mem_replicate one]
      decide
    · obtain ⟨d, inside, rfl⟩ := List.mem_map.mp digit
      have found := digitOf_symbol (small d inside)
      unfold digitOf at found
      split at found
      · next alphabet => exact alphabet
      · exact nomatch found

theorem decodeLoop_safe {psz : List UInt8} (digits : ∀ d ∈ b256, d < 256) (fits : Nat.ofDigits 256 b256 < 58 ^ n)
    (room : 58 ^ (n + psz.length) ≤ 256 ^ b256.length) : decodeLoop psz b256 ≠ .error .carry := by
  induction psz generalizing b256 n with
  | nil => exact nofun
  | cons c psz ih =>
    rw [decodeLoop]
    split
    · exact nofun
    · split
      · exact nofun
      · next ch found =>
        have small := digitOf_lt found
        have next : 58 * Nat.ofDigits 256 b256 + ch < 58 ^ (n + 1) := by
          rw [pow_succ]
          omega
        have inside : 58 ^ (n + 1) ≤ 256 ^ b256.length :=
          (Nat.pow_le_pow_right (by decide) (by rw [List.length_cons]; omega)).trans room
        have none := @Radix.mulAdd_fits 256 58 _ _ (lt_of_lt_of_le next inside)
        have value := Radix.mulAdd_value 256 58 ch b256
        rw [none, Nat.mul_zero, Nat.add_zero] at value
        simp only [none, if_true]
        apply ih (n := n + 1) (Radix.mulAdd_lt (by decide) ch b256)
        · rw [value]
          exact next
        · rw [Radix.length_mulAdd, Nat.add_right_comm]
          exact room

theorem decodeBase58_safe : decodeBase58 psz ≠ .error .carry := by
  have loop : ∀ text : List UInt8, decodeLoop text (List.replicate (text.length * 733 / 1000 + 1) 0) ≠ .error .carry := by
    intro text
    apply decodeLoop_safe (n := 0) (zeros_lt 256 _ (by decide))
    · rw [Radix.ofDigits_zeros]
      decide
    · rw [List.length_replicate, Nat.zero_add]
      by_contra less
      exact absurd (decode_room (not_le.mp less)) (lt_irrefl _)
  unfold decodeBase58
  intro failed
  dsimp only at failed
  split at failed
  · next e decoded =>
    have isCarry : e = .carry := Except.error.inj failed
    exact loop _ (isCarry ▸ decoded)
  · unfold finishDecode at failed
    split at failed
    · exact nomatch failed
    · exact nomatch failed

end Base58

end SchillingCoin
