import Mathlib.Data.List.TakeDrop
import Mathlib.Data.Nat.Bitwise
import Mathlib.Tactic.Ring

/-!
Strings of bits, the highest first: numbers of a fixed width, bytes, and words of another width that are cut from the bits of bytes.
-/

namespace BitString

/-- The lowest `width` bits of a number. -/
def ofNat : (width : Nat) → Nat → List Bool
  | 0, _ => []
  | width + 1, k => k.testBit width :: ofNat width k

def toNat (bits : List Bool) : Nat := bits.foldl (fun k bit => 2 * k + bit.toNat) 0

variable (bytes : List UInt8) (width k : Nat) (bits : List Bool) (n : Nat) (byte : UInt8)

def ofBytes : List Bool := bytes.flatMap fun byte => ofNat 8 byte.toNat

def ofWords (words : List Nat) : List Bool := words.flatMap (ofNat width)

def cut (width : Nat) : (n : Nat) → List Bool → List Nat
  | 0, _ => []
  | n + 1, bits => toNat (bits.take width) :: cut width n (bits.drop width)

@[simp] theorem length_ofNat : (ofNat width k).length = width := by
  induction width with
  | zero => rfl
  | succ width ih => simp [ofNat, ih]

theorem ofNat_congr {width k l : Nat} (same : ∀ i < width, k.testBit i = l.testBit i) : ofNat width k = ofNat width l := by
  induction width with
  | zero => rfl
  | succ width ih =>
    rw [ofNat, ofNat, same width (Nat.lt_succ_self _), ih fun i small => same i (by omega)]

theorem getElem?_ofNat (i : Nat) : (ofNat width k)[i]? = if i < width then some (k.testBit (width - 1 - i)) else none := by
  induction width generalizing i with
  | zero => simp [ofNat]
  | succ width ih =>
    rcases i with _ | i
    · simp [ofNat]
    · rw [ofNat, List.getElem?_cons_succ, ih]
      by_cases small : i < width
      · rw [if_pos small, if_pos (by omega)]
        congr 2
        omega
      · rw [if_neg small, if_neg (by omega)]

theorem toNat_append (more : List Bool) : toNat (bits ++ more) = toNat bits * 2 ^ more.length + toNat more := by
  have general : ∀ (more : List Bool) (k : Nat), more.foldl (fun k bit => 2 * k + bit.toNat) k = k * 2 ^ more.length + toNat more := by
    intro more
    induction more with
    | nil => intro k; simp [toNat]
    | cons bit more ih =>
      intro k
      have tail : toNat (bit :: more) = bit.toNat * 2 ^ more.length + toNat more := by
        rw [toNat, List.foldl_cons, Nat.mul_zero, Nat.zero_add, ih]
      rw [List.foldl_cons, ih, tail, List.length_cons, pow_succ]
      ring
  rw [toNat, List.foldl_append]
  exact general more _

theorem toNat_cons (bit : Bool) (bits : List Bool) : toNat (bit :: bits) = bit.toNat * 2 ^ bits.length + toNat bits := by
  have one : toNat [bit] = bit.toNat := by simp [toNat]
  rw [← List.singleton_append, toNat_append, one]

theorem toNat_lt : toNat bits < 2 ^ bits.length := by
  induction bits with
  | nil => exact Nat.one_pos
  | cons bit bits ih =>
    rw [toNat_cons, List.length_cons, pow_succ]
    cases bit <;> simp <;> omega

theorem toNat_ofNat : toNat (ofNat width k) = k % 2 ^ width := by
  induction width with
  | zero => simp [ofNat, toNat, Nat.mod_one]
  | succ width ih =>
    rw [ofNat, toNat_cons, ih, length_ofNat, Nat.mod_pow_succ, Nat.toNat_testBit]
    ring

theorem ofNat_toNat : ofNat bits.length (toNat bits) = bits := by
  induction bits with
  | nil => rfl
  | cons bit bits ih =>
    have small := toNat_lt bits
    have high : (bit.toNat * 2 ^ bits.length + toNat bits).testBit bits.length = bit := by
      rw [Nat.mul_comm, Nat.testBit_two_pow_mul_add _ small, if_neg (Nat.lt_irrefl _), Nat.sub_self]
      cases bit <;> rfl
    have low : ofNat bits.length (bit.toNat * 2 ^ bits.length + toNat bits) = ofNat bits.length (toNat bits) := by
      apply ofNat_congr
      intro i below
      rw [Nat.mul_comm, Nat.testBit_two_pow_mul_add _ small, if_pos below]
    rw [List.length_cons, ofNat, toNat_cons, high, low, ih]

theorem ofNat_injective {width k : Nat} (smallK : k < 2 ^ width) (smallL : l < 2 ^ width) (same : ofNat width k = ofNat width l) :
    k = l := by
  have numbers := congrArg toNat same
  rwa [toNat_ofNat, toNat_ofNat, Nat.mod_eq_of_lt smallK, Nat.mod_eq_of_lt smallL] at numbers

@[simp] theorem length_ofWords (words : List Nat) : (ofWords width words).length = width * words.length := by
  induction words with
  | nil => rfl
  | cons word words ih =>
    show (ofNat width word ++ ofWords width words).length = _
    rw [List.length_append, length_ofNat, ih, List.length_cons, Nat.mul_succ, Nat.add_comm]

@[simp] theorem length_cut (bits : List Bool) : (cut width n bits).length = n := by
  induction n generalizing bits with
  | zero => rfl
  | succ n ih => rw [cut, List.length_cons, ih]

theorem cut_lt {width n : Nat} {bits : List Bool} {word : Nat} (member : word ∈ cut width n bits) : word < 2 ^ width := by
  induction n generalizing bits with
  | zero => exact absurd member List.not_mem_nil
  | succ n ih =>
    rcases List.mem_cons.mp member with rfl | later
    · refine (toNat_lt _).trans_le (Nat.pow_le_pow_right Nat.two_pos ?_)
      rw [List.length_take]
      omega
    · exact ih later

theorem getElem?_cut {width n i : Nat} (bits : List Bool) (inside : i < n) :
    (cut width n bits)[i]? = some (toNat ((bits.drop (width * i)).take width)) := by
  induction n generalizing bits i with
  | zero => omega
  | succ n ih =>
    rcases i with _ | i
    · rfl
    · rw [cut, List.getElem?_cons_succ, ih (bits.drop width) (by omega), List.drop_drop]
      congr 4
      ring

theorem ofWords_cut {width n : Nat} {bits : List Bool} (enough : width * n ≤ bits.length) :
    ofWords width (cut width n bits) = bits.take (width * n) := by
  induction n generalizing bits with
  | zero => simp [ofWords, cut]
  | succ n ih =>
    rw [Nat.mul_succ] at enough
    have first : (bits.take width).length = width := by
      rw [List.length_take]
      omega
    have word : ofNat width (toNat (bits.take width)) = bits.take width := by
      have whole := ofNat_toNat (bits.take width)
      rwa [first] at whole
    have rest : ofWords width (cut width n (bits.drop width)) = (bits.drop width).take (width * n) := by
      apply ih
      rw [List.length_drop]
      omega
    show ofNat width (toNat (bits.take width)) ++ ofWords width (cut width n (bits.drop width)) = _
    rw [word, rest, Nat.mul_succ, Nat.add_comm, List.take_add]

theorem cut_ofWords {width : Nat} {words : List Nat} (small : ∀ word ∈ words, word < 2 ^ width) (more : List Bool) :
    cut width words.length (ofWords width words ++ more) = words := by
  induction words with
  | nil => rfl
  | cons word words ih =>
    have first : (ofNat width word).length = width := length_ofNat _ _
    have whole : ofWords width (word :: words) ++ more = ofNat width word ++ (ofWords width words ++ more) :=
      List.append_assoc _ _ _
    rw [whole, List.length_cons, cut, List.take_left' first, List.drop_left' first, toNat_ofNat,
      Nat.mod_eq_of_lt (small word List.mem_cons_self), ih fun w member => small w (List.mem_cons_of_mem _ member)]

@[simp] theorem ofBytes_append (more : List UInt8) : ofBytes (bytes ++ more) = ofBytes bytes ++ ofBytes more :=
  List.flatMap_append

theorem ofBytes_cons (bytes : List UInt8) : ofBytes (byte :: bytes) = ofNat 8 byte.toNat ++ ofBytes bytes := rfl

@[simp] theorem length_ofBytes : (ofBytes bytes).length = 8 * bytes.length := by
  induction bytes with
  | nil => rfl
  | cons byte bytes ih => rw [ofBytes_cons, List.length_append, length_ofNat, ih, List.length_cons, Nat.mul_succ, Nat.add_comm]

theorem ofBytes_zeros : ofBytes (List.replicate n 0) = List.replicate (8 * n) false := by
  induction n with
  | zero => rfl
  | succ n ih =>
    have zero : ofNat 8 (0 : UInt8).toNat = List.replicate 8 false := rfl
    rw [List.replicate_succ, ofBytes_cons, ih, zero, List.replicate_append_replicate, Nat.mul_succ, Nat.add_comm]

theorem ofBytes_take : ofBytes (bytes.take n) = (ofBytes bytes).take (8 * n) := by
  induction bytes generalizing n with
  | nil => simp [ofBytes]
  | cons byte bytes ih =>
    rcases n with _ | n
    · rfl
    · have first : (ofNat 8 byte.toNat).length = 8 := length_ofNat _ _
      rw [List.take_succ_cons, ofBytes_cons, ofBytes_cons, ih, Nat.mul_succ, Nat.add_comm, List.take_add, List.take_left' first,
        List.drop_left' first]

theorem ofBytes_drop : ofBytes (bytes.drop n) = (ofBytes bytes).drop (8 * n) := by
  have whole := List.take_append_drop (8 * n) (ofBytes bytes)
  have parts : ofBytes (bytes.take n) ++ ofBytes (bytes.drop n) = ofBytes bytes := by
    rw [← ofBytes_append, List.take_append_drop]
  rw [← ofBytes_take, ← parts] at whole
  rw [← parts]
  exact (List.append_cancel_left whole).symm

theorem ofBytes_injective {bytes : List UInt8} (same : ofBytes bytes = ofBytes others) : bytes = others := by
  induction bytes generalizing others with
  | nil =>
    have length := congrArg List.length same
    rw [length_ofBytes, length_ofBytes, List.length_nil] at length
    exact (List.length_eq_zero_iff.mp (by omega)).symm
  | cons byte bytes ih =>
    cases others with
    | nil =>
      have length := congrArg List.length same
      rw [length_ofBytes, length_ofBytes, List.length_nil, List.length_cons] at length
      omega
    | cons other others =>
      rw [ofBytes_cons, ofBytes_cons] at same
      obtain ⟨first, rest⟩ := List.append_inj same (by rw [length_ofNat, length_ofNat])
      have byte := ofNat_injective (UInt8.toNat_lt byte) (UInt8.toNat_lt other) first
      rw [UInt8.toNat_inj.mp byte, ih rest]

theorem getElem?_ofBytes (p : Nat) : (ofBytes bytes)[p]? = bytes[p / 8]?.map fun byte => byte.toNat.testBit (7 - p % 8) := by
  induction bytes generalizing p with
  | nil => simp [ofBytes]
  | cons byte bytes ih =>
    have first : (ofNat 8 byte.toNat).length = 8 := length_ofNat _ _
    rw [ofBytes_cons]
    by_cases inside : p < 8
    · rw [List.getElem?_append_left (by omega), getElem?_ofNat, if_pos inside, Nat.div_eq_of_lt inside, Nat.mod_eq_of_lt inside]
      rfl
    · obtain ⟨q, rfl⟩ : ∃ q, p = q + 8 := ⟨p - 8, by omega⟩
      rw [List.getElem?_append_right (by omega), first, Nat.add_sub_cancel, ih, Nat.add_mod_right,
        show (q + 8) / 8 = q / 8 + 1 by omega, List.getElem?_cons_succ]

theorem testBit_or_shift (inside : s < 8) (asked : t < 8) :
    (byte ||| 1 <<< UInt8.ofNat s).toNat.testBit t = (byte.toNat.testBit t || decide (s = t)) := by
  have amount : (UInt8.ofNat s).toNat % 8 = s := by
    rw [UInt8.toNat_ofNat', Nat.mod_mod_of_dvd _ (by decide), Nat.mod_eq_of_lt inside]
  rw [UInt8.toNat_or, UInt8.toNat_shiftLeft, amount, Nat.testBit_or, Nat.testBit_mod_two_pow, UInt8.toNat_one, Nat.one_shiftLeft,
    Nat.testBit_two_pow, decide_eq_true asked, Bool.true_and]

theorem ofBytes_modify (p : Nat) :
    ofBytes (bytes.modify (p / 8) fun byte => byte ||| 1 <<< UInt8.ofNat (7 - p % 8)) = (ofBytes bytes).set p true := by
  apply List.ext_getElem?
  intro q
  rw [getElem?_ofBytes, List.getElem?_modify, List.getElem?_set, getElem?_ofBytes, length_ofBytes]
  cases there : bytes[q / 8]? with
  | none =>
    have past := List.getElem?_eq_none_iff.mp there
    simp only [Option.map_eq_map, Option.map_none]
    split
    · rw [if_neg (by omega)]
    · rfl
  | some byte =>
    have inside := (List.getElem?_eq_some_iff.mp there).1
    simp only [Option.map_eq_map, Option.map_some]
    by_cases same : p = q
    · subst same
      rw [if_pos rfl, if_pos rfl, if_pos (by omega), testBit_or_shift byte (by omega) (by omega), decide_eq_true rfl, Bool.or_true]
    · rw [if_neg same]
      by_cases block : p / 8 = q / 8
      · rw [if_pos block, testBit_or_shift byte (by omega) (by omega), decide_eq_false (by omega), Bool.or_false]
      · rw [if_neg block]

theorem testBit_and_shift (inside : s < 8) : decide (byte &&& 1 <<< UInt8.ofNat s > 0) = byte.toNat.testBit s := by
  have amount : (UInt8.ofNat s).toNat % 8 = s := by
    rw [UInt8.toNat_ofNat', Nat.mod_mod_of_dvd _ (by decide), Nat.mod_eq_of_lt inside]
  have power : 2 ^ s < 2 ^ 8 := Nat.pow_lt_pow_right (by omega) inside
  have number : (byte &&& 1 <<< UInt8.ofNat s).toNat = (byte.toNat.testBit s).toNat * 2 ^ s := by
    rw [UInt8.toNat_and, UInt8.toNat_shiftLeft, amount, UInt8.toNat_one, Nat.one_shiftLeft, Nat.mod_eq_of_lt power, Nat.and_two_pow]
  have positive := Nat.two_pow_pos s
  apply Bool.eq_iff_iff.mpr
  rw [decide_eq_true_iff, gt_iff_lt, UInt8.lt_iff_toNat_lt, number]
  cases byte.toNat.testBit s <;> simp

theorem and_eq_and_iff {x : UInt8} (mask : ∀ i < 8, m.toNat.testBit i = decide (8 - t ≤ i)) :
    x &&& m = y &&& m ↔ (ofNat 8 x.toNat).take t = (ofNat 8 y.toNat).take t := by
  have masked (z : UInt8) {i : Nat} (inside : i < 8) : (z &&& m).toNat.testBit i = (z.toNat.testBit i && decide (8 - t ≤ i)) := by
    rw [UInt8.toNat_and, Nat.testBit_and, mask i inside]
  constructor
  · intro same
    apply List.ext_getElem?
    intro i
    rw [List.getElem?_take, List.getElem?_take, getElem?_ofNat, getElem?_ofNat]
    by_cases first : i < t
    · rw [if_pos first, if_pos first]
      by_cases inside : i < 8
      · have bit := masked x (i := 7 - i) (by omega)
        rw [same, masked y (by omega), decide_eq_true (by omega), Bool.and_true, Bool.and_true] at bit
        rw [if_pos inside, if_pos inside, show 8 - 1 - i = 7 - i by omega, bit]
      · rw [if_neg inside, if_neg inside]
    · rw [if_neg first, if_neg first]
  · intro same
    apply UInt8.toNat_inj.mp
    apply Nat.eq_of_testBit_eq
    intro i
    by_cases inside : i < 8
    · rw [masked x inside, masked y inside]
      by_cases high : 8 - t ≤ i
      · have bit := congrArg (fun bits : List Bool => bits[7 - i]?) same
        simp only [List.getElem?_take, getElem?_ofNat] at bit
        rw [if_pos (by omega), if_pos (by omega), if_pos (by omega), if_pos (by omega), show 8 - 1 - (7 - i) = i by omega] at bit
        rw [Option.some.inj bit]
      · rw [decide_eq_false high, Bool.and_false, Bool.and_false]
    · have zero (z : UInt8) : z.toNat.testBit i = false :=
        Nat.testBit_lt_two_pow ((UInt8.toNat_lt z).trans_le (Nat.pow_le_pow_right (by omega) (by omega)))
      rw [zero, zero]

end BitString
