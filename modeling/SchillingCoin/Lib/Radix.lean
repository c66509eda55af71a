import Mathlib.Data.Nat.Digits.Lemmas
import Mathlib.Data.List.DropRight

/-!
Numerals taken over from one base into another, digit by digit, in a buffer of a fixed length. Buffers hold the least digit first;
numerals are read from the highest digit on.
-/

namespace Radix

variable {base factor : Nat}

/-- The buffer times a factor plus a carry, and the carry that is left over at its end. -/
def mulAdd (base factor : Nat) : Nat → List Nat → List Nat × Nat
  | carry, [] => ([], carry)
  | carry, d :: digits =>
    let n := carry + factor * d
    let rest := mulAdd base factor (n / base) digits
    (n % base :: rest.1, rest.2)

/-- A numeral is taken over into a buffer. `none` says that a carry was left over. -/
def convert (base factor : Nat) : List Nat → List Nat → Option (List Nat)
  | [], buffer => some buffer
  | d :: numeral, buffer =>
    let next := mulAdd base factor d buffer
    if next.2 = 0 then convert base factor numeral next.1 else none

/-- The value of a numeral, read after a start. -/
def valueFrom (factor start : Nat) (numeral : List Nat) : Nat := numeral.foldl (fun n d => factor * n + d) start

@[simp] theorem length_mulAdd (carry : Nat) (digits : List Nat) : (mulAdd base factor carry digits).1.length = digits.length := by
  induction digits generalizing carry with
  | nil => rfl
  | cons d digits ih => rw [mulAdd, List.length_cons, ih, List.length_cons]

theorem mulAdd_lt (positive : 0 < base) (carry : Nat) (digits : List Nat) : ∀ d ∈ (mulAdd base factor carry digits).1, d < base := by
  induction digits generalizing carry with
  | nil => exact nofun
  | cons d digits ih =>
    intro d' member
    rcases List.mem_cons.mp member with rfl | member
    · exact Nat.mod_lt _ positive
    · exact ih _ d' member

theorem mulAdd_value (base factor carry : Nat) (digits : List Nat) :
    Nat.ofDigits base (mulAdd base factor carry digits).1 + base ^ digits.length * (mulAdd base factor carry digits).2 =
      factor * Nat.ofDigits base digits + carry := by
  induction digits generalizing carry with
  | nil => simp [mulAdd]
  | cons d digits ih =>
    have rest := ih ((carry + factor * d) / base)
    have split := Nat.mod_add_div (carry + factor * d) base
    simp only [mulAdd, Nat.ofDigits_cons, List.length_cons, pow_succ]
    calc (carry + factor * d) % base + base * Nat.ofDigits base (mulAdd base factor ((carry + factor * d) / base) digits).1 +
          base ^ digits.length * base * (mulAdd base factor ((carry + factor * d) / base) digits).2
        = (carry + factor * d) % base + base * (Nat.ofDigits base (mulAdd base factor ((carry + factor * d) / base) digits).1 +
          base ^ digits.length * (mulAdd base factor ((carry + factor * d) / base) digits).2) := by ring
      _ = (carry + factor * d) % base + base * ((carry + factor * d) / base) + factor * (base * Nat.ofDigits base digits) := by rw [rest]; ring
      _ = factor * (d + base * Nat.ofDigits base digits) + carry := by rw [split]; ring

theorem mulAdd_fits (fits : factor * Nat.ofDigits base digits + carry < base ^ digits.length) :
    (mulAdd base factor carry digits).2 = 0 := by
  have value := mulAdd_value base factor carry digits
  by_contra left
  have one : base ^ digits.length * 1 ≤ base ^ digits.length * (mulAdd base factor carry digits).2 :=
    Nat.mul_le_mul_left _ (Nat.one_le_iff_ne_zero.mpr left)
  omega

theorem le_valueFrom (positive : 0 < factor) (start : Nat) (numeral : List Nat) : start ≤ valueFrom factor start numeral := by
  induction numeral generalizing start with
  | nil => exact le_refl _
  | cons d numeral ih =>
    have more := ih (factor * start + d)
    have grown : start ≤ factor * start := Nat.le_mul_of_pos_left start positive
    show start ≤ valueFrom factor (factor * start + d) numeral
    omega

theorem convert_fits (positive : 0 < base) (factorPositive : 0 < factor)
    (fits : valueFrom factor (Nat.ofDigits base buffer) numeral < base ^ buffer.length) (digits : ∀ d ∈ buffer, d < base) :
    ∃ result, convert base factor numeral buffer = some result ∧ result.length = buffer.length ∧ (∀ d ∈ result, d < base) ∧
      Nat.ofDigits base result = valueFrom factor (Nat.ofDigits base buffer) numeral := by
  induction numeral generalizing buffer with
  | nil => exact ⟨buffer, rfl, rfl, digits, rfl⟩
  | cons d numeral ih =>
    have here : factor * Nat.ofDigits base buffer + d < base ^ buffer.length :=
      lt_of_le_of_lt (le_valueFrom factorPositive (factor * Nat.ofDigits base buffer + d) numeral) fits
    have none := mulAdd_fits here
    have value := mulAdd_value base factor d buffer
    rw [none, Nat.mul_zero, Nat.add_zero] at value
    have fits' : valueFrom factor (Nat.ofDigits base (mulAdd base factor d buffer).1) numeral < base ^ (mulAdd base factor d buffer).1.length := by
      rw [value, length_mulAdd]
      exact fits
    obtain ⟨result, converted, length, small, same⟩ := ih fits' (mulAdd_lt positive d buffer)
    refine ⟨result, ?_, length.trans (length_mulAdd d buffer), small, ?_⟩
    · rw [convert]
      simp only [none, if_true]
      exact converted
    · rw [same, value]
      rfl

theorem valueFrom_eq_ofDigits (numeral : List Nat) : valueFrom factor 0 numeral = Nat.ofDigits factor numeral.reverse := by
  rw [valueFrom, Nat.ofDigits_eq_foldr, List.foldl_eq_foldr_reverse]
  congr 1
  funext d n
  rw [Nat.cast_id, Nat.add_comm]

theorem valueFrom_lt (digits : ∀ d ∈ numeral, d < factor) : valueFrom factor 0 numeral < factor ^ numeral.length := by
  rw [valueFrom_eq_ofDigits]
  by_cases many : 1 < factor
  · have small := Nat.ofDigits_lt_base_pow_length many (l := numeral.reverse) fun d member => digits d (List.mem_reverse.mp member)
    rwa [List.length_reverse] at small
  · cases numeral with
    | nil => exact Nat.one_pos
    | cons d numeral =>
      have zero : factor = 1 := by
        have := digits d List.mem_cons_self
        omega
      have all : ∀ d' ∈ (d :: numeral).reverse, d' = 0 := by
        intro d' member
        have := digits d' (List.mem_reverse.mp member)
        omega
      rw [zero, Nat.ofDigits_one, List.sum_eq_zero all]
      simp

theorem digits_valueFrom (many : 1 < base) (digits : ∀ d ∈ numeral, d < base) (head : ∀ d ∈ numeral.head?, d ≠ 0) :
    (Nat.digits base (valueFrom base 0 numeral)).reverse = numeral := by
  rw [valueFrom_eq_ofDigits, Nat.digits_ofDigits base many, List.reverse_reverse]
  · intro d member
    exact digits d (List.mem_reverse.mp member)
  · intro some_ zero
    rw [List.getLast_reverse] at zero
    cases numeral with
    | nil => exact some_ rfl
    | cons d numeral => exact head d rfl zero

theorem ofDigits_zeros (n : Nat) : Nat.ofDigits base (List.replicate n 0) = 0 := by
  induction n with
  | zero => rfl
  | succ n ih => rw [List.replicate_succ, Nat.ofDigits_cons, ih, Nat.mul_zero]

theorem stripped_eq_digits (many : 1 < base) (digits : ∀ d ∈ buffer, d < base) :
    (buffer.reverse.dropWhile fun d => d = 0) = (Nat.digits base (Nat.ofDigits base buffer)).reverse := by
  have same : Nat.ofDigits base (buffer.rdropWhile fun d => d = 0) = Nat.ofDigits base buffer := by
    induction buffer using List.reverseRecOn with
    | nil => rfl
    | append_singleton buffer d ih =>
      by_cases zero : d = 0
      · rw [List.rdropWhile_concat_pos _ _ _ (by simpa using zero), ih fun d' member => digits d' (List.mem_append_left _ member),
          Nat.ofDigits_append, zero]
        simp
      · rw [List.rdropWhile_concat_neg _ _ _ (by simpa using zero)]
  have stripped : Nat.digits base (Nat.ofDigits base (buffer.rdropWhile fun d => d = 0)) = buffer.rdropWhile fun d => d = 0 := by
    apply Nat.digits_ofDigits base many
    · intro d member
      exact digits d ((List.rdropWhile_prefix _ _).subset member)
    · intro some_
      simpa using List.rdropWhile_last_not (fun d => decide (d = 0)) buffer some_
  rw [← same, stripped, List.rdropWhile, List.reverse_reverse]

theorem pow_le_of_rate (positive : 0 < a) (targetPositive : 0 < target) (rate : source ^ a ≤ target ^ b) (n : Nat) :
    source ^ n ≤ target ^ (n * b / a + 1) := by
  have enough : b * n ≤ (n * b / a + 1) * a := by
    have split := Nat.mod_add_div (n * b) a
    have small := Nat.mod_lt (n * b) positive
    calc b * n = n * b % a + a * (n * b / a) := by rw [split, Nat.mul_comm]
      _ ≤ a + a * (n * b / a) := by omega
      _ = (n * b / a + 1) * a := by ring
  apply (Nat.pow_le_pow_iff_left positive.ne').mp
  calc (source ^ n) ^ a = (source ^ a) ^ n := by rw [← pow_mul, ← pow_mul, Nat.mul_comm]
    _ ≤ (target ^ b) ^ n := Nat.pow_le_pow_left rate n
    _ = target ^ (b * n) := by rw [← pow_mul]
    _ ≤ target ^ ((n * b / a + 1) * a) := Nat.pow_le_pow_right targetPositive enough
    _ = (target ^ (n * b / a + 1)) ^ a := by rw [pow_mul]

end Radix
