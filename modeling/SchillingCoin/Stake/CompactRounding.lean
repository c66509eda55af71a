import Mathlib.Order.Bounds.Basic
import SchillingCoin.Stake.CompactTarget

/-!
What the compact form loses of a number. `GetCompact` is here with its assertions and the argument for a negative number.
-/

namespace SchillingCoin

/-- `GetCompact` from the sign of the word on. Nothing comes back where an assertion fails. -/
def finishCompact (nCompact nSize : Nat) (fNegative : Bool) : Option Nat :=
  let signed := nCompact.testBit 23
  let nCompact := if signed then nCompact >>> 8 else nCompact
  let nSize := if signed then nSize + 1 else nSize
  if nCompact &&& 0xff800000 ≠ 0 then none
  else if nSize ≥ 256 then none
  else
    let nCompact := nCompact ||| nSize <<< 24
    some (if fNegative && nCompact &&& 0x007fffff ≠ 0 then nCompact ||| 0x00800000 else nCompact)

variable (n : uint256) (nCompact : BitVec 32)

def getCompactOf (fNegative : Bool) : Option Nat :=
  let bits := if n = 0 then 0 else n.toNat.log2 + 1
  let nSize := (bits + 7) / 8
  let nCompact := if nSize ≤ 3 then (n.toNat <<< (8 * (3 - nSize))) % 2 ^ 32 else (n.toNat >>> (8 * (nSize - 3))) % 2 ^ 32
  finishCompact nCompact nSize fNegative

def encodedValue : Nat :=
  let nSize := nCompact.toNat / 2 ^ 24
  if nSize ≤ 3 then nWordOf nCompact else nWordOf nCompact * 256 ^ (nSize - 3)

theorem and_high_eq_zero (small : word < 2 ^ 23) : word &&& 0xff800000 = 0 := by
  have mask : 0xff800000 = (2 ^ 9 - 1) <<< 23 := by decide
  rw [mask]
  apply Nat.eq_of_testBit_eq
  intro i
  rw [Nat.testBit_and, Nat.testBit_shiftLeft, Nat.zero_testBit]
  by_cases low : i < 23
  · rw [decide_eq_false (Nat.not_le.mpr low), Bool.false_and, Bool.and_false]
  · rw [Nat.testBit_lt_two_pow (Nat.lt_of_lt_of_le small (Nat.pow_le_pow_right (by omega) (Nat.not_lt.mp low))), Bool.false_and]

theorem finishCompact_eq (high : word < 2 ^ 24) (few : size ≤ 32) (fNegative : Bool) :
    finishCompact word size fNegative =
      some (if fNegative && (if word.testBit 23 then word >>> 8 ||| (size + 1) <<< 24 else word ||| size <<< 24) &&& 0x007fffff ≠ 0
        then (if word.testBit 23 then word >>> 8 ||| (size + 1) <<< 24 else word ||| size <<< 24) ||| 0x00800000
        else if word.testBit 23 then word >>> 8 ||| (size + 1) <<< 24 else word ||| size <<< 24) := by
  unfold finishCompact
  by_cases signed : word.testBit 23 = true
  · have low : word >>> 8 < 2 ^ 23 := by
      rw [Nat.shiftRight_eq_div_pow]
      omega
    simp only [if_pos signed, and_high_eq_zero low, ne_eq, not_true_eq_false, if_false, if_neg (show ¬size + 1 ≥ 256 by omega)]
  · have low : word < 2 ^ 23 := by
      rw [Nat.testBit_eq_decide_div_mod_eq, decide_eq_true_eq] at signed
      omega
    simp only [if_neg signed, and_high_eq_zero low, ne_eq, not_true_eq_false, if_false, if_neg (show ¬size ≥ 256 by omega)]

theorem getCompactOf_eq (fNegative : Bool) :
    getCompactOf n fNegative =
      some (if fNegative && getCompact n &&& 0x007fffff ≠ 0 then getCompact n ||| 0x00800000 else getCompact n) := by
  by_cases isZero : n = 0
  · subst isZero
    cases fNegative <;> decide
  · have nonzero : n.toNat ≠ 0 := fun zero => isZero (BitVec.eq_of_toNat_eq (zero.trans rfl))
    unfold getCompactOf
    dsimp only
    rw [bits_eq_byteSize isZero, shifted_eq_topBytes nonzero, finishCompact_eq (topBytes_bounds nonzero).2 (byteSize_le nonzero),
      getCompact_eq isZero]

theorem size_mono {size : Nat} (less : x ≤ y) (low : 2 ^ 15 ≤ topBytes x size) (high : topBytes y size' < 2 ^ 23) : size ≤ size' := by
  by_contra longer
  have above : 2 ^ 15 * 256 ^ size ≤ x * 2 ^ 24 := (Nat.mul_le_mul_right _ low).trans (Nat.div_mul_le_self _ _)
  have below : y * 2 ^ 24 < 2 ^ 23 * 256 ^ size' := (Nat.div_lt_iff_lt_mul (by positivity)).mp high
  have power : 256 ^ (size' + 1) ≤ 256 ^ size := Nat.pow_le_pow_right (by decide) (by omega)
  rw [pow_succ] at power
  omega

theorem value_cases (n size : Nat) : size < 3 ∧ topBytes n size * 256 ^ size / 2 ^ 24 = n ∨
    3 ≤ size ∧ topBytes n size = n / 256 ^ (size - 3) ∧ topBytes n size * 256 ^ size / 2 ^ 24 = n / 256 ^ (size - 3) * 256 ^ (size - 3) := by
  by_cases short : size < 3
  · left
    have powers : (2 : Nat) ^ 24 = 256 ^ (3 - size) * 256 ^ size := by
      rw [← pow_add, Nat.sub_add_cancel (by omega)]
      rfl
    have bytes : topBytes n size = n * 256 ^ (3 - size) := by
      rw [topBytes, powers, ← Nat.mul_assoc, Nat.mul_div_cancel _ (by positivity)]
    refine ⟨short, ?_⟩
    rw [bytes, powers, Nat.mul_assoc, Nat.mul_div_cancel _ (by positivity)]
  · right
    have powers : (256 : Nat) ^ size = 256 ^ (size - 3) * 2 ^ 24 := by
      rw [show (2 : Nat) ^ 24 = 256 ^ 3 from rfl, ← pow_add]
      congr 1
      omega
    have bytes : topBytes n size = n / 256 ^ (size - 3) := by
      rw [topBytes, powers, Nat.mul_div_mul_right _ _ (by decide)]
    refine ⟨by omega, bytes, ?_⟩
    rw [bytes, powers, ← Nat.mul_assoc, Nat.mul_div_cancel _ (by decide)]

def representable (x : Nat) : Set Nat := {v | v ≤ x ∧ ∃ m e, 3 ≤ e ∧ m ≤ 0x7fffff ∧ v = m * 256 ^ (e - 3)}

theorem setCompact_compactBits {n : uint256} (parts : getCompact n = topBytes n.toNat size + size * 2 ^ 24)
    (high : topBytes n.toNat size < 2 ^ 23) (few : size ≤ 33) :
    (setCompact (compactBits n)).toNat = topBytes n.toNat size * 256 ^ size / 2 ^ 24 := by
  rw [compactBits, parts, setCompact_toNat high (by omega), Nat.mod_eq_of_lt (lt_of_le_of_lt (topBytes_mul_le _ _) n.isLt)]

theorem compactBits_greatest : IsGreatest (representable n.toNat) (setCompact (compactBits n)).toNat := by
  by_cases isZero : n = 0
  · subst isZero
    refine ⟨⟨Nat.le_refl _, 0, 3, Nat.le_refl _, by omega, rfl⟩, ?_⟩
    exact fun v member => member.1
  · obtain ⟨size, parts, low, high, few, _⟩ := getCompact_parts isZero
    rw [setCompact_compactBits parts high few]
    have below := topBytes_mul_le n.toNat size
    rcases value_cases n.toNat size with ⟨short, value⟩ | ⟨long, bytes, value⟩
    · rw [value]
      refine ⟨⟨Nat.le_refl _, n.toNat, 3, Nat.le_refl _, ?_, by rw [Nat.sub_self, pow_zero, Nat.mul_one]⟩, fun v member => member.1⟩
      -- a number of two bytes
      have top : n.toNat * 2 ^ 24 < 2 ^ 23 * 256 ^ size := (Nat.div_lt_iff_lt_mul (by positivity)).mp high
      have power : 256 ^ size ≤ 256 ^ 2 := Nat.pow_le_pow_right (by decide) (by omega)
      omega
    · rw [value] at below ⊢
      rw [bytes] at low high
      refine ⟨⟨below, _, size, long, by omega, rfl⟩, ?_⟩
      intro v ⟨le, m, e, three, word, isV⟩
      rw [isV] at le ⊢
      by_cases fine : size ≤ e
      · -- a multiple of the last place that is kept
        have split : m * 256 ^ (e - 3) = m * 256 ^ (e - size) * 256 ^ (size - 3) := by
          rw [Nat.mul_assoc, ← pow_add]
          congr 2
          omega
        rw [split] at le ⊢
        exact Nat.mul_le_mul_right _ ((Nat.le_div_iff_mul_le (by positivity)).mpr le)
      · -- a smaller exponent stays below the highest place
        have power : 256 ^ (e - 3) * 256 ≤ 256 ^ (size - 3) := by
          rw [← pow_succ]
          exact Nat.pow_le_pow_right (by decide) (by omega)
        calc m * 256 ^ (e - 3) ≤ 2 ^ 23 * 256 ^ (e - 3) := Nat.mul_le_mul_right _ (by omega)
          _ = 2 ^ 15 * (256 ^ (e - 3) * 256) := by ring
          _ ≤ n.toNat / 256 ^ (size - 3) * 256 ^ (size - 3) := Nat.mul_le_mul low power

theorem getCompact_zero : getCompact 0 = 0 := rfl

theorem getCompact_mono (less : x ≤ y) : getCompact x ≤ getCompact y := by
  by_cases isZero : x = 0
  · rw [isZero, getCompact_zero]
    exact Nat.zero_le _
  · have order : x.toNat ≤ y.toNat := BitVec.le_def.mp less
    have other : y ≠ 0 := by
      intro zero
      rw [zero] at order
      exact isZero (BitVec.eq_of_toNat_eq (Nat.le_zero.mp order))
    obtain ⟨size, parts, low, high, _, _⟩ := getCompact_parts isZero
    obtain ⟨size', parts', _, high', _, _⟩ := getCompact_parts other
    have sizes := size_mono order low high'
    rw [parts, parts']
    by_cases same : size = size'
    · have words : topBytes x.toNat size ≤ topBytes y.toNat size := Nat.div_le_div_right (Nat.mul_le_mul_right _ order)
      rw [← same]
      omega
    · omega

theorem getCompact_setCompact : getCompact (setCompact (compactBits n)) = getCompact n := by
  by_cases isZero : n = 0
  · subst isZero
    rfl
  · obtain ⟨size, parts, low, high, few, _⟩ := getCompact_parts isZero
    have decoded := setCompact_compactBits parts high few
    have positive : setCompact (compactBits n) ≠ 0 := by
      intro zero
      have some_ := (compactBits_spec isZero).2.1
      have zeroNat : (0 : uint256).toNat = 0 := rfl
      have power := Nat.two_pow_pos n.toNat.log2
      rw [zero, zeroNat] at some_
      exact absurd some_ (Nat.not_le.mpr power)
    have word : topBytes (setCompact (compactBits n)).toNat size = topBytes n.toNat size := by
      rcases value_cases n.toNat size with ⟨_, value⟩ | ⟨long, bytes, value⟩
      · rw [decoded, value]
      · rw [decoded, value]
        rcases value_cases (n.toNat / 256 ^ (size - 3) * 256 ^ (size - 3)) size with ⟨short, _⟩ | ⟨_, bytes', _⟩
        · exact absurd short (Nat.not_lt.mpr long)
        · rw [bytes', bytes, Nat.mul_div_cancel _ (by positivity)]
    obtain ⟨size', parts', low', high', _, _⟩ := getCompact_parts positive
    rw [← word] at low high
    have same : size' = size := Nat.le_antisymm (size_mono (Nat.le_refl _) low' high) (size_mono (Nat.le_refl _) low high')
    rw [parts', same, word, parts]

theorem getCompact_lt : getCompact n < 2 ^ 32 := by
  by_cases isZero : n = 0
  · rw [isZero, getCompact_zero]
    decide
  · obtain ⟨size, parts, _, high, few, _⟩ := getCompact_parts isZero
    omega

theorem nWordOf_lt : nWordOf nCompact < 2 ^ 23 := by
  have word : nCompact.toNat % 2 ^ 23 < 2 ^ 23 := Nat.mod_lt _ (by decide)
  unfold nWordOf
  dsimp only
  split
  · exact Nat.lt_of_le_of_lt (Nat.div_le_self _ _) word
  · exact word

theorem setCompact_eq_encodedValue : (setCompact nCompact).toNat = encodedValue nCompact % 2 ^ 256 := by
  unfold setCompact encodedValue nWordOf
  dsimp only
  split <;> rw [BitVec.toNat_ofNat]

theorem compactOverflow_iff : compactOverflow nCompact = true ↔ 2 ^ 256 ≤ encodedValue nCompact := by
  have small := nWordOf_lt nCompact
  unfold compactOverflow encodedValue
  dsimp only
  generalize nWordOf nCompact = nWord at small
  generalize nCompact.toNat / 2 ^ 24 = nSize
  rw [Bool.and_eq_true, Bool.or_eq_true, Bool.or_eq_true, Bool.and_eq_true, Bool.and_eq_true]
  simp only [decide_eq_true_eq, ne_eq]
  have limit : (2 : Nat) ^ 256 = 256 ^ 32 := by rw [pow_256]
  rw [limit]
  by_cases short : nSize ≤ 32
  · -- three bytes are below the end
    have below : (if nSize ≤ 3 then nWord else nWord * 256 ^ (nSize - 3)) < 256 ^ 32 := by
      split
      · exact Nat.lt_of_lt_of_le small (by rw [pow_256]; exact Nat.pow_le_pow_right (by decide) (by decide))
      · calc nWord * 256 ^ (nSize - 3) < 2 ^ 23 * 256 ^ (nSize - 3) := Nat.mul_lt_mul_of_pos_right small (by positivity)
          _ ≤ 256 ^ 3 * 256 ^ (nSize - 3) := Nat.mul_le_mul_right _ (by decide)
          _ = 256 ^ (3 + (nSize - 3)) := (pow_add _ _ _).symm
          _ ≤ 256 ^ 32 := Nat.pow_le_pow_right (by decide) (by omega)
    exact iff_of_false (by omega) (Nat.not_le.mpr below)
  · rw [if_neg (by omega)]
    by_cases long : nSize > 34
    · by_cases isZero : nWord = 0
      · rw [isZero, Nat.zero_mul]
        exact iff_of_false (fun reported => reported.1 rfl) (Nat.not_le.mpr (by positivity))
      · have above : 256 ^ 32 ≤ nWord * 256 ^ (nSize - 3) :=
          (Nat.pow_le_pow_right (by decide) (by omega)).trans (Nat.le_mul_of_pos_left _ (Nat.pos_of_ne_zero isZero))
        exact iff_of_true ⟨isZero, Or.inl (Or.inl long)⟩ above
    · rcases (show nSize = 33 ∨ nSize = 34 by omega) with isSize | isSize
      · subst isSize
        have split : (256 : Nat) ^ 32 = 2 ^ 16 * 256 ^ (33 - 3) := by rw [show (2 : Nat) ^ 16 = 256 ^ 2 from rfl, ← pow_add]
        rw [split, Nat.mul_le_mul_right_iff (by positivity)]
        omega
      · subst isSize
        have split : (256 : Nat) ^ 32 = 2 ^ 8 * 256 ^ (34 - 3) := by rw [show (2 : Nat) ^ 8 = 256 ^ 1 from rfl, ← pow_add]
        rw [split, Nat.mul_le_mul_right_iff (by positivity)]
        omega

theorem compactNegative_iff : compactNegative nCompact = true ↔ nCompact.toNat.testBit 23 = true ∧ nWordOf nCompact ≠ 0 := by
  rw [compactNegative, Bool.and_eq_true, decide_eq_true_eq, and_comm]

/-- The compact form fails no assertion and stands for the greatest representable number below; it keeps the order, and a form that was
made is made again from its number. -/
theorem compact_roundsDown :
    (∀ n fNegative, (getCompactOf n fNegative).isSome = true) ∧
    (∀ n, getCompactOf n false = some (compactBits n).toNat ∧ IsGreatest (representable n.toNat) (setCompact (compactBits n)).toNat) ∧
    (∀ x y : uint256, x ≤ y → (compactBits x).toNat ≤ (compactBits y).toNat) ∧
    (∀ n, compactBits (setCompact (compactBits n)) = compactBits n) ∧
    ∀ nCompact, (setCompact nCompact).toNat = encodedValue nCompact % 2 ^ 256 ∧
      (compactOverflow nCompact = true ↔ 2 ^ 256 ≤ encodedValue nCompact) ∧
      (compactNegative nCompact = true ↔ nCompact.toNat.testBit 23 = true ∧ nWordOf nCompact ≠ 0) := by
  have whole : ∀ n, (compactBits n).toNat = getCompact n := fun n => by
    rw [compactBits, BitVec.toNat_ofNat]
    exact Nat.mod_eq_of_lt (getCompact_lt n)
  refine ⟨?_, ?_, ?_, ?_, ?_⟩
  · intro n fNegative
    rw [getCompactOf_eq]
    rfl
  · intro n
    refine ⟨?_, compactBits_greatest n⟩
    rw [getCompactOf_eq, whole, Bool.false_and, if_neg Bool.false_ne_true]
  · intro x y less
    rw [whole, whole]
    exact getCompact_mono less
  · intro n
    rw [compactBits, getCompact_setCompact]
    rfl
  · exact fun nCompact => ⟨setCompact_eq_encodedValue nCompact, compactOverflow_iff nCompact, compactNegative_iff nCompact⟩

theorem compact_roundsDown_one : (compactBits 0x7f).toNat ≤ (compactBits 0x80).toNat := compact_roundsDown.2.2.1 0x7f 0x80 (by decide)

end SchillingCoin
