import Mathlib.Data.Nat.Digits.Lemmas
import Mathlib.Tactic.Ring

/-!
Decimal numerals in ASCII, as a program prints them, and what is known about two numbers that are printed one after the other
without a separator.
-/

namespace Decimal

def symbol (d : Nat) : UInt8 := UInt8.ofNat (48 + d)

def IsDigit (c : UInt8) : Prop := 48 ≤ c ∧ c ≤ 57

instance (c : UInt8) : Decidable (IsDigit c) := inferInstanceAs (Decidable (_ ∧ _))

def numeral (n : Nat) : List UInt8 := if n = 0 then [symbol 0] else (Nat.digits 10 n).reverse.map symbol

def signed : Int → List UInt8
  | .ofNat n => numeral n
  | .negSucc n => 45 :: numeral (n + 1)

def size (n : Nat) : Nat := (numeral n).length

theorem symbol_toNat (small : d < 10) : (symbol d).toNat = 48 + d := by
  rw [symbol, UInt8.toNat_ofNat']
  omega

theorem isDigit_symbol (small : d < 10) : IsDigit (symbol d) := by
  have code := symbol_toNat small
  unfold IsDigit
  rw [UInt8.le_iff_toNat_le, UInt8.le_iff_toNat_le, code]
  exact ⟨Nat.le_add_right _ _, by simp; omega⟩

variable {n : Nat} {c : UInt8} {x y x' y' : Int} {more : List UInt8}

theorem numeral_pos (positive : 0 < n) :
    numeral n = (Nat.digits 10 n).reverse.map symbol := if_neg (by omega)

theorem numeral_isDigit (member : c ∈ numeral n) : IsDigit c := by
  unfold numeral at member
  split at member
  · rw [List.mem_singleton.mp member]
    exact isDigit_symbol (by omega)
  · obtain ⟨d, digit, rfl⟩ := List.mem_map.mp member
    exact isDigit_symbol (Nat.digits_lt_base (by omega) (List.mem_reverse.mp digit))

theorem numeral_ne_nil (n : Nat) : numeral n ≠ [] := by
  unfold numeral
  split
  · exact List.cons_ne_nil _ _
  · next nonzero => simpa [Nat.digits_ne_nil_iff_ne_zero] using nonzero

/-- The number that a text of digits stands for. -/
def value (text : List UInt8) : Nat := Nat.ofDigits 10 (text.reverse.map fun c => c.toNat - 48)

theorem value_numeral (n : Nat) : value (numeral n) = n := by
  unfold numeral
  split
  · next zero =>
    subst zero
    rfl
  · have back : ((Nat.digits 10 n).map symbol).map (fun c => c.toNat - 48) = Nat.digits 10 n := by
      rw [List.map_map, List.map_congr_left (g := id), List.map_id]
      intro d digit
      have code := symbol_toNat (Nat.digits_lt_base (by omega) digit)
      change (symbol d).toNat - 48 = d
      omega
    rw [value, ← List.map_reverse, List.reverse_reverse, back, Nat.ofDigits_digits]

theorem value_append (front back : List UInt8) : value (front ++ back) = value front * 10 ^ back.length + value back := by
  unfold value
  rw [List.reverse_append, List.map_append, Nat.ofDigits_append, List.length_map, List.length_reverse]
  ring

theorem value_cons (c : UInt8) (rest : List UInt8) : value (c :: rest) = (c.toNat - 48) * 10 ^ rest.length + value rest := by
  rw [← List.singleton_append, value_append]
  simp [value]

theorem value_lt (digits : ∀ c ∈ text, IsDigit c) : value text < 10 ^ text.length := by
  induction text with
  | nil => exact Nat.one_pos
  | cons c rest ih =>
    have below := ih fun d member => digits d (List.mem_cons_of_mem _ member)
    have high := UInt8.le_iff_toNat_le.mp (digits c List.mem_cons_self).2
    have most : (c.toNat - 48) * 10 ^ rest.length ≤ 9 * 10 ^ rest.length := Nat.mul_le_mul_right _ (by simp at high; omega)
    rw [value_cons, List.length_cons, Nat.pow_succ]
    omega

theorem value_zeros (k : Nat) : value (List.replicate k (symbol 0)) = 0 := by
  induction k with
  | zero => rfl
  | succ k ih =>
    rw [List.replicate_succ, value_cons, ih, symbol_toNat (by omega)]
    simp

theorem length_numeral_le (small : n < 10 ^ (k + 1)) : (numeral n).length ≤ k + 1 := by
  unfold numeral
  split
  · exact Nat.succ_le_succ (Nat.zero_le k)
  · rw [List.length_map, List.length_reverse]
    exact (Nat.digits_length_le_iff (by omega) n).mpr small

theorem numeral_injective : Function.Injective numeral := Function.LeftInverse.injective value_numeral

theorem exists_numeral (digits : ∀ d ∈ c :: rest, IsDigit d) (leading : c ≠ symbol 0) : ∃ n, 0 < n ∧ c :: rest = numeral n := by
  have codes : ∀ d ∈ c :: rest, 48 ≤ d.toNat ∧ d.toNat ≤ 57 := fun d member => by
    have digit := digits d member
    simpa [IsDigit, UInt8.le_iff_toNat_le] using digit
  have lead := codes c List.mem_cons_self
  have apart : c.toNat ≠ 48 := fun same => leading (UInt8.toNat_inj.mp same)
  have small : ∀ l ∈ (c :: rest).reverse.map (fun d => d.toNat - 48), l < 10 := by
    intro l member
    obtain ⟨d, digit, rfl⟩ := List.mem_map.mp member
    have code := codes d (List.mem_reverse.mp digit)
    omega
  have written : Nat.digits 10 (value (c :: rest)) = (c :: rest).reverse.map fun d => d.toNat - 48 := by
    apply Nat.digits_ofDigits 10 (by omega) _ small
    intro nonempty
    simp only [List.reverse_cons, List.map_append, List.map_cons, List.map_nil, List.getLast_append_singleton]
    omega
  have positive : 0 < value (c :: rest) := by
    apply Nat.pos_of_ne_zero
    intro zero
    rw [zero, Nat.digits_zero] at written
    simp at written
  refine ⟨value (c :: rest), positive, ?_⟩
  rw [numeral_pos positive, written, List.map_reverse, List.map_reverse, List.map_reverse, List.reverse_reverse, List.map_map]
  symm
  apply (List.map_congr_left _).trans (List.map_id _)
  intro d member
  have code := codes d member
  apply UInt8.toNat_inj.mp
  change (symbol (d.toNat - 48)).toNat = d.toNat
  rw [symbol_toNat (by omega)]
  omega

theorem numeral_head (positive : 0 < n) (written : numeral n = c :: rest) : c ≠ symbol 0 := by
  rw [numeral_pos positive] at written
  have nonempty : Nat.digits 10 n ≠ [] := Nat.digits_ne_nil_iff_ne_zero.mpr (by omega)
  have leading : symbol ((Nat.digits 10 n).getLast nonempty) = c := by
    have heads := congrArg List.head? written
    rw [List.head?_map, List.head?_reverse, List.getLast?_eq_getLast_of_ne_nil nonempty] at heads
    exact Option.some.inj heads
  have nonzero := Nat.getLast_digit_ne_zero 10 (by omega : n ≠ 0)
  have small := Nat.digits_lt_base (by omega : 1 < 10) (List.getLast_mem nonempty)
  rintro rfl
  have code := congrArg UInt8.toNat leading
  rw [symbol_toNat small, symbol_toNat (by omega)] at code
  omega

theorem numeral_append (positive : 0 < a) (d : Nat) : numeral a ++ numeral d = numeral (a * 10 ^ size d + d) := by
  have whole : 0 < a * 10 ^ size d + d := by positivity
  rw [numeral_pos whole]
  rcases Nat.eq_zero_or_pos d with rfl | second
  · have one : size 0 = 1 := rfl
    rw [one, Nat.pow_one, Nat.add_zero, Nat.mul_comm, Nat.digits_base_mul (by omega) positive, numeral_pos positive]
    simp [numeral]
  · have length : size d = (Nat.digits 10 d).length := by rw [size, numeral_pos second]; simp
    rw [numeral_pos positive, numeral_pos second, length, ← List.map_append, ← List.reverse_append,
      Nat.digits_append_digits (by omega)]
    congr 3
    ring

@[simp] theorem signed_ofNat (n : Nat) : signed n = numeral n := rfl

@[simp] theorem signed_negSucc (n : Nat) : signed (.negSucc n) = 45 :: numeral (n + 1) := rfl

theorem not_isDigit_minus : ¬IsDigit 45 := by decide

theorem signed_ne_nil (z : Int) : signed z ≠ [] := by
  cases z with
  | ofNat n => exact numeral_ne_nil n
  | negSucc n => exact List.cons_ne_nil _ _

theorem signed_injective : Function.Injective signed := by
  intro x y same
  cases x with
  | ofNat n =>
    cases y with
    | ofNat k => rw [numeral_injective same]
    | negSucc k =>
      have written : numeral n = 45 :: numeral (k + 1) := same
      exact absurd (numeral_isDigit (written ▸ List.mem_cons_self : 45 ∈ numeral n)) not_isDigit_minus
  | negSucc n =>
    cases y with
    | ofNat k =>
      have written : 45 :: numeral (n + 1) = numeral k := same
      exact absurd (numeral_isDigit (written ▸ List.mem_cons_self : 45 ∈ numeral k)) not_isDigit_minus
    | negSucc k =>
      have digits := numeral_injective (List.cons.inj same).2
      rw [Nat.succ.inj digits]

theorem signed_append (nonzero : x ≠ 0) (d : Nat) :
    signed x ++ numeral d = signed (x * 10 ^ size d + x.sign * d) := by
  cases x with
  | ofNat n =>
    have positive : 0 < n := Nat.pos_of_ne_zero fun zero => nonzero (by rw [zero]; rfl)
    have sign : (Int.ofNat n).sign = 1 := Int.sign_natCast_of_ne_zero (by omega)
    have longer : (Int.ofNat n * 10 ^ size d + 1 * d) = ((n * 10 ^ size d + d : Nat) : Int) := by push_cast; simp
    rw [sign, longer]
    exact numeral_append positive d
  | negSucc n =>
    have positive : 0 < (n + 1) * 10 ^ size d + d := by positivity
    have longer : (Int.negSucc n * 10 ^ size d + -1 * d) = Int.negSucc ((n + 1) * 10 ^ size d + d - 1) := by
      rw [Int.negSucc_eq, Int.negSucc_eq]
      push_cast [Nat.cast_sub positive]
      ring
    rw [Int.sign_negSucc, longer, signed_negSucc, signed_negSucc, Nat.sub_add_cancel positive, List.cons_append,
      numeral_append (by omega)]

/-- The second pair of numbers is the first one after the leading digits of its second number, at least one and not all, were
moved to the end of the first number. -/
def Carried (x y x' y' : Int) : Prop :=
  ∃ d k : Nat, 0 < d ∧ x ≠ 0 ∧ y = (d * 10 ^ size k + k : Nat) ∧ x' = x * 10 ^ size d + x.sign * d ∧ y' = k

theorem Carried.text (carried : Carried x y x' y') : signed x ++ signed y = signed x' ++ signed y' := by
  obtain ⟨d, k, positive, nonzero, rfl, rfl, rfl⟩ := carried
  rw [← signed_append nonzero, signed_ofNat, signed_ofNat, ← numeral_append positive, List.append_assoc]

theorem Carried.ne (carried : Carried x y x' y') : y ≠ y' := by
  obtain ⟨d, k, positive, -, rfl, -, rfl⟩ := carried
  have power : 0 < 10 ^ size k := by positivity
  have more : 0 < d * 10 ^ size k := Nat.mul_pos positive power
  omega

/-- Text that follows a number and continues it to another one are digits, and the number is not zero unless there is none. -/
theorem continued_digits (longer : signed x' = signed x ++ more) : ∀ c ∈ more, IsDigit c := by
  intro c member
  cases x' with
  | ofNat n =>
    change numeral n = _ at longer
    exact numeral_isDigit (longer ▸ List.mem_append_right _ member)
  | negSucc n =>
    obtain ⟨first, rest, written⟩ := List.exists_cons_of_ne_nil (signed_ne_nil x)
    rw [signed_negSucc, written, List.cons_append] at longer
    exact numeral_isDigit ((List.cons.inj longer).2 ▸ List.mem_append_right _ member)

theorem nonzero_of_continued (longer : signed x' = signed x ++ c :: more) : x ≠ 0 := by
  rintro rfl
  have zero : signed 0 = [symbol 0] := rfl
  rw [zero, List.singleton_append] at longer
  cases x' with
  | ofNat n =>
    change numeral n = _ at longer
    rcases Nat.eq_zero_or_pos n with rfl | positive
    · cases longer
    · exact numeral_head positive longer rfl
  | negSucc n => exact absurd (List.cons.inj longer).1 (by decide)

theorem carried_of_append (some_ : more ≠ []) (longer : signed x' = signed x ++ more)
    (shorter : signed y = more ++ signed y') : Carried x y x' y' := by
  obtain ⟨c, rest, rfl⟩ := List.exists_cons_of_ne_nil some_
  have digits := continued_digits longer
  have nonzero := nonzero_of_continued longer
  cases y with
  | negSucc n =>
    have first : (45 : UInt8) = c := (List.cons.inj shorter).1
    exact absurd (first ▸ digits c List.mem_cons_self) not_isDigit_minus
  | ofNat m =>
    change numeral m = _ at shorter
    have all : ∀ c ∈ signed y', IsDigit c := fun c member => numeral_isDigit (shorter ▸ List.mem_append_right _ member)
    cases y' with
    | negSucc n => exact absurd (all 45 List.mem_cons_self) not_isDigit_minus
    | ofNat k =>
      have leading : c ≠ symbol 0 := by
        apply numeral_head ?_ shorter
        apply Nat.pos_of_ne_zero
        rintro rfl
        have one : 1 = (c :: rest).length + (numeral k).length := by
          rw [← List.length_append]
          exact congrArg List.length shorter
        rw [List.length_cons] at one
        have two := List.length_pos_of_ne_nil (numeral_ne_nil k)
        omega
      obtain ⟨d, positive, written⟩ := exists_numeral digits leading
      rw [written] at longer shorter
      rw [signed_append nonzero] at longer
      change _ = numeral d ++ numeral k at shorter
      rw [numeral_append positive] at shorter
      exact ⟨d, k, positive, nonzero, congrArg _ (numeral_injective shorter), signed_injective longer, rfl⟩

/-- Two pairs of numbers have the same text, written one after the other, where they are equal or digits were moved. -/
theorem signed_append_eq_iff (x y x' y' : Int) : signed x ++ signed y = signed x' ++ signed y' ↔
    (x = x' ∧ y = y') ∨ Carried x y x' y' ∨ Carried x' y' x y := by
  constructor
  · intro same
    rcases List.append_eq_append_iff.mp same with ⟨more, longer, shorter⟩ | ⟨more, longer, shorter⟩
    · by_cases none_ : more = []
      · subst none_
        rw [List.append_nil] at longer
        exact Or.inl ⟨(signed_injective longer).symm, signed_injective shorter⟩
      · exact Or.inr (Or.inl (carried_of_append none_ longer shorter))
    · by_cases none_ : more = []
      · subst none_
        rw [List.append_nil] at longer
        exact Or.inl ⟨signed_injective longer, (signed_injective shorter).symm⟩
      · exact Or.inr (Or.inr (carried_of_append none_ longer shorter))
  · rintro (⟨rfl, rfl⟩ | carried | carried)
    · rfl
    · exact carried.text
    · exact carried.text.symm

theorem append_inj_of_class {inClass : α → Prop} {a a' b b' : List α} (before : ∀ c ∈ a, inClass c)
    (before' : ∀ c ∈ a', inClass c) (after : ∃ c ∈ b.head?, ¬inClass c) (after' : ∃ c ∈ b'.head?, ¬inClass c)
    (same : a ++ b = a' ++ b') : a = a' ∧ b = b' := by
  rcases List.append_eq_append_iff.mp same with ⟨more, rfl, rfl⟩ | ⟨more, rfl, rfl⟩
  · cases more with
    | nil => exact ⟨(List.append_nil a).symm, rfl⟩
    | cons c more =>
      obtain ⟨c, head, outside⟩ := after
      rw [List.cons_append, List.head?_cons, Option.mem_some_iff] at head
      exact absurd (before' c (by simp [head])) outside
  · cases more with
    | nil => exact ⟨List.append_nil a', rfl⟩
    | cons c more =>
      obtain ⟨c, head, outside⟩ := after'
      rw [List.cons_append, List.head?_cons, Option.mem_some_iff] at head
      exact absurd (before c (by simp [head])) outside

end Decimal
