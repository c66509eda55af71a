import Mathlib.Data.Nat.Bitwise
import Mathlib.Data.Nat.Digits.Lemmas
import Mathlib.Data.Nat.Size

/-!
Numbers in words of a fixed base, the lowest word first: the step of a carry, a bitwise or that is a sum, the words that an or changes,
and the order from the highest word down.
-/

namespace Limbs

variable {base : Nat}

theorem carry_step (positive : 0 < base) (n rest k : Nat) :
    (n + base * rest) % base ^ (k + 1) = n % base + base * ((n / base + rest) % base ^ k) := by
  rw [Nat.pow_succ, Nat.mul_comm (base ^ k), Nat.mod_mul, Nat.add_mul_mod_self_left, Nat.add_mul_div_left n rest positive]

theorem low_step (below : low < base ^ j) (rest k : Nat) :
    (low + base ^ j * rest) % base ^ (j + k) = low + base ^ j * (rest % base ^ k) := by
  have positive : 0 < base ^ j := by omega
  rw [Nat.pow_add, Nat.mod_mul, Nat.add_mul_mod_self_left, Nat.add_mul_div_left low rest positive, Nat.mod_eq_of_lt below,
    Nat.div_eq_of_lt below, Nat.zero_add]

variable {words : List Nat} {i r w : Nat}

theorem ofDigits_lt (small : ∀ w ∈ words, w < base) : Nat.ofDigits base words < base ^ words.length := by
  induction words with
  | nil => exact Nat.one_pos
  | cons w words ih =>
    have first := small w List.mem_cons_self
    have rest := ih fun v member => small v (List.mem_cons_of_mem _ member)
    rw [Nat.ofDigits_cons, List.length_cons, Nat.pow_succ, Nat.mul_comm (base ^ words.length)]
    calc w + base * Nat.ofDigits base words < base * (Nat.ofDigits base words + 1) := by rw [Nat.mul_succ]; omega
      _ ≤ base * base ^ words.length := Nat.mul_le_mul_left _ rest

theorem ofDigits_take_append_drop (words : List Nat) {j : Nat} (inside : j ≤ words.length) :
    Nat.ofDigits base words = Nat.ofDigits base (words.take j) + base ^ j * Nat.ofDigits base (words.drop j) := by
  conv_lhs => rw [← List.take_append_drop j words]
  rw [Nat.ofDigits_append, List.length_take, Nat.min_eq_left inside]

theorem ofDigits_take_succ (inside : i < words.length) :
    Nat.ofDigits base (words.take (i + 1)) = Nat.ofDigits base (words.take i) + words.getD i 0 * base ^ i := by
  rw [List.take_add_one, List.getElem?_eq_getElem inside, Option.toList_some, Nat.ofDigits_append, Nat.ofDigits_singleton,
    List.length_take, Nat.min_eq_left (Nat.le_of_lt inside), List.getD_eq_getElem?_getD, List.getElem?_eq_getElem inside, Option.getD_some,
    Nat.mul_comm]

theorem or_eq_add (below : low < 2 ^ r) (multiple : 2 ^ r ∣ high) : low ||| high = low + high := by
  obtain ⟨m, rfl⟩ := multiple
  rw [Nat.or_comm, ← Nat.two_pow_add_eq_or_of_lt below, Nat.add_comm]

def orWord (words : List Nat) (i d : Nat) : List Nat := words.set i (words.getD i 0 ||| d)

@[simp] theorem length_orWord (words : List Nat) (i d : Nat) : (orWord words i d).length = words.length := List.length_set

theorem getD_orWord (inside : i < words.length) (d j : Nat) :
    (orWord words i d).getD j 0 = if i = j then words.getD i 0 ||| d else words.getD j 0 := by
  rw [orWord, List.getD_eq_getElem?_getD, List.getElem?_set]
  by_cases here : i = j
  · rw [if_pos here, if_pos here, if_pos inside]
    rfl
  · rw [if_neg here, if_neg here, ← List.getD_eq_getElem?_getD]

theorem orWord_lt (small : ∀ v ∈ words, v < 2 ^ w) (below : d < 2 ^ w) (i : Nat) : ∀ v ∈ orWord words i d, v < 2 ^ w := by
  intro v member
  rcases List.mem_or_eq_of_mem_set member with old | new
  · exact small v old
  · rw [new]
    apply Nat.or_lt_two_pow _ below
    rw [List.getD_eq_getElem?_getD]
    cases at_ : words[i]? with
    | none => exact Nat.two_pow_pos w
    | some v' => exact small v' (List.mem_of_getElem? at_)

theorem ofDigits_set (words : List Nat) (inside : i < words.length) (d : Nat) :
    Nat.ofDigits base (words.set i (words.getD i 0 + d)) = Nat.ofDigits base words + d * base ^ i := by
  induction words generalizing i with
  | nil => exact absurd inside (Nat.not_lt_zero i)
  | cons w words ih =>
    cases i with
    | zero =>
      rw [List.set_cons_zero, List.getD_cons_zero, Nat.ofDigits_cons, Nat.ofDigits_cons]
      ring
    | succ i =>
      rw [List.set_cons_succ, List.getD_cons_succ, Nat.ofDigits_cons, ih (Nat.lt_of_succ_lt_succ inside), Nat.ofDigits_cons]
      ring

theorem ofDigits_orWord (inside : i < words.length) (below : words.getD i 0 < 2 ^ r) (multiple : 2 ^ r ∣ d) :
    Nat.ofDigits base (orWord words i d) = Nat.ofDigits base words + d * base ^ i := by
  rw [orWord, or_eq_add below multiple]
  exact ofDigits_set words inside d

theorem getD_eq (small : ∀ w ∈ words, w < base) (inside : i < words.length) :
    words.getD i 0 = Nat.ofDigits base words / base ^ i % base := by
  have word : words[i] < base := small _ (List.getElem_mem inside)
  have low := ofDigits_lt fun w member => small w (List.mem_of_mem_take (i := i) member)
  rw [List.length_take, Nat.min_eq_left (Nat.le_of_lt inside)] at low
  have split := @ofDigits_take_append_drop base words i (Nat.le_of_lt inside)
  rw [List.drop_eq_getElem_cons inside, Nat.ofDigits_cons] at split
  rw [split, Nat.add_mul_div_left _ _ (by omega), Nat.div_eq_of_lt low, Nat.zero_add, Nat.add_mul_mod_self_left, Nat.mod_eq_of_lt word,
    List.getD_eq_getElem?_getD, List.getElem?_eq_getElem inside, Option.getD_some]

theorem ofDigits_orWord_bit (small : ∀ v ∈ words, v < 2 ^ w) (inside : i < words.length) (bit : r < w)
    (multiple : 2 ^ (w * i + r + 1) ∣ Nat.ofDigits (2 ^ w) words) :
    Nat.ofDigits (2 ^ w) (orWord words i (2 ^ r)) = Nat.ofDigits (2 ^ w) words + 2 ^ (w * i + r) := by
  have word : 2 ^ (r + 1) ∣ words.getD i 0 := by
    rw [getD_eq small inside]
    apply (Nat.dvd_mod_iff (Nat.pow_dvd_pow 2 bit)).mpr
    obtain ⟨m, value⟩ := multiple
    rw [value, ← Nat.pow_mul, Nat.add_assoc, Nat.pow_add, Nat.mul_assoc, Nat.mul_div_cancel_left _ (Nat.two_pow_pos _)]
    exact Nat.dvd_mul_right _ _
  rw [orWord, Nat.or_comm, or_eq_add (Nat.pow_lt_pow_right (by decide) (Nat.lt_succ_self r)) word, Nat.add_comm, ofDigits_set words inside,
    ← Nat.pow_mul, ← Nat.pow_add, Nat.add_comm r]

theorem ofDigits_lt_of_high (small : ∀ v ∈ low, v < base) (length : low.length = low'.length) (less : w < w') :
    Nat.ofDigits base (low ++ [w]) < Nat.ofDigits base (low' ++ [w']) := by
  have below := ofDigits_lt small
  rw [Nat.ofDigits_append, Nat.ofDigits_append, Nat.ofDigits_singleton, Nat.ofDigits_singleton, ← length]
  calc Nat.ofDigits base low + base ^ low.length * w < base ^ low.length * (w + 1) := by rw [Nat.mul_succ]; omega
    _ ≤ base ^ low.length * w' := Nat.mul_le_mul_left _ less
    _ ≤ _ := Nat.le_add_left _ _

end Limbs
