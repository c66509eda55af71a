import SchillingCoin.Lib.Limbs

/-!
Big integers in words of 32 bits, after `base_uint` in `uint256.h` and `uint256.cpp`: the operators over their words, for any number of
words. The operands of an operator are objects of their own.
-/

namespace SchillingCoin

structure base_uint (WIDTH : Nat) where
  pn : List Nat
  size : pn.length = WIDTH
  words : ∀ w ∈ pn, w < 2 ^ 32

namespace base_uint

variable {WIDTH : Nat}

variable (x b : base_uint WIDTH)

def value : Nat := Nat.ofDigits (2 ^ 32) x.pn

def zero (WIDTH : Nat) : base_uint WIDTH where
  pn := List.replicate WIDTH 0
  size := List.length_replicate
  words := fun w member => by
    rw [List.eq_of_mem_replicate member]
    exact Nat.two_pow_pos 32

def addFrom (carry : Nat) : List Nat → List Nat → List Nat
  | x :: pn, y :: b =>
    let n := (carry + x + y) % 2 ^ 64
    n % 2 ^ 32 :: addFrom (n / 2 ^ 32) pn b
  | _, _ => []

def complement (pn : List Nat) : List Nat := pn.map fun w => 2 ^ 32 - 1 - w

def incrementFrom : List Nat → List Nat
  | [] => []
  | w :: pn =>
    let w := (w + 1) % 2 ^ 32
    if w = 0 ∧ pn ≠ [] then w :: incrementFrom pn else w :: pn

def mulWordFrom (b32 carry : Nat) : List Nat → List Nat
  | [] => []
  | x :: pn =>
    let n := (carry + b32 * x) % 2 ^ 64
    n % 2 ^ 32 :: mulWordFrom b32 (n / 2 ^ 32) pn

/-- The inner loop of `operator*=`, over the words from the `j`-th on. -/
def mulAddFrom (aj carry : Nat) : List Nat → List Nat → List Nat
  | x :: pn, y :: b =>
    let n := (carry + x + aj * y) % 2 ^ 64
    n % 2 ^ 32 :: mulAddFrom aj (n / 2 ^ 32) pn b
  | pn, _ => pn

def mulFrom (b : List Nat) : Nat → List Nat → List Nat → List Nat
  | _, [], pn => pn
  | j, aj :: a, pn => mulFrom b (j + 1) a (pn.take j ++ mulAddFrom aj 0 (pn.drop j) b)

/-- `CompareTo` from a word on, the highest word first. -/
def compareFrom : List Nat → List Nat → Int
  | x :: a, y :: b => if x < y then -1 else if x > y then 1 else compareFrom a b
  | _, _ => 0

def bitsOfWord (w : Nat) : Nat → Nat
  | 0 => 1
  | bits + 1 => if w &&& 1 <<< (bits + 1) ≠ 0 then bits + 1 + 1 else bitsOfWord w bits

/-- `bits` from a word on, the highest word first. -/
def bitsFrom : List Nat → Nat
  | [] => 0
  | w :: below => if w ≠ 0 then 32 * below.length + bitsOfWord w 31 else bitsFrom below

theorem addFrom_spec {pn b : List Nat} {carry : Nat} (length : pn.length = b.length) (small : ∀ w ∈ pn, w < 2 ^ 32)
    (small' : ∀ w ∈ b, w < 2 ^ 32) (carried : carry < 2 ^ 32) :
    (addFrom carry pn b).length = pn.length ∧ (∀ w ∈ addFrom carry pn b, w < 2 ^ 32) ∧
    Nat.ofDigits (2 ^ 32) (addFrom carry pn b) =
      (carry + Nat.ofDigits (2 ^ 32) pn + Nat.ofDigits (2 ^ 32) b) % (2 ^ 32) ^ pn.length := by
  induction pn generalizing b carry with
  | nil => exact ⟨rfl, nofun, (Nat.mod_one _).symm⟩
  | cons x pn ih =>
    match b, length with
    | y :: b, length =>
      have first := small x List.mem_cons_self
      have first' := small' y List.mem_cons_self
      have fits : (carry + x + y) % 2 ^ 64 = carry + x + y := Nat.mod_eq_of_lt (by omega)
      obtain ⟨same, words, value⟩ := @ih b ((carry + x + y) / 2 ^ 32) (Nat.succ.inj length)
        (fun w member => small w (List.mem_cons_of_mem _ member)) (fun w member => small' w (List.mem_cons_of_mem _ member)) (by omega)
      rw [addFrom, fits]
      refine ⟨by rw [List.length_cons, same, List.length_cons], ?_, ?_⟩
      · intro w member
        rcases List.mem_cons.mp member with isFirst | later
        · rw [isFirst]
          exact Nat.mod_lt _ (by decide)
        · exact words w later
      · have whole : carry + (x + 2 ^ 32 * Nat.ofDigits (2 ^ 32) pn) + (y + 2 ^ 32 * Nat.ofDigits (2 ^ 32) b) =
            carry + x + y + 2 ^ 32 * (Nat.ofDigits (2 ^ 32) pn + Nat.ofDigits (2 ^ 32) b) := by ring
        rw [Nat.ofDigits_cons, Nat.ofDigits_cons, Nat.ofDigits_cons, whole, List.length_cons, Limbs.carry_step (by decide), value,
          Nat.add_assoc ((carry + x + y) / 2 ^ 32)]

theorem complement_spec {pn : List Nat} (small : ∀ w ∈ pn, w < 2 ^ 32) :
    (∀ w ∈ complement pn, w < 2 ^ 32) ∧ Nat.ofDigits (2 ^ 32) (complement pn) + Nat.ofDigits (2 ^ 32) pn + 1 = (2 ^ 32) ^ pn.length := by
  induction pn with
  | nil => exact ⟨nofun, rfl⟩
  | cons x pn ih =>
    have first := small x List.mem_cons_self
    obtain ⟨words, value⟩ := ih fun w member => small w (List.mem_cons_of_mem _ member)
    refine ⟨?_, ?_⟩
    · intro w member
      rcases List.mem_cons.mp member with isFirst | later
      · rw [isFirst]
        show 2 ^ 32 - 1 - x < 2 ^ 32
        omega
      · exact words w later
    · show Nat.ofDigits (2 ^ 32) ((2 ^ 32 - 1 - x) :: complement pn) + _ + 1 = _
      rw [Nat.ofDigits_cons, Nat.ofDigits_cons, List.length_cons, Nat.pow_succ (n := 2 ^ 32) (m := pn.length), ← value]
      omega

theorem incrementFrom_spec {pn : List Nat} (small : ∀ w ∈ pn, w < 2 ^ 32) :
    (incrementFrom pn).length = pn.length ∧ (∀ w ∈ incrementFrom pn, w < 2 ^ 32) ∧
    Nat.ofDigits (2 ^ 32) (incrementFrom pn) = (Nat.ofDigits (2 ^ 32) pn + 1) % (2 ^ 32) ^ pn.length := by
  induction pn with
  | nil => exact ⟨rfl, nofun, (Nat.mod_one _).symm⟩
  | cons x pn ih =>
    have first := small x List.mem_cons_self
    have others : ∀ w ∈ pn, w < 2 ^ 32 := fun w member => small w (List.mem_cons_of_mem _ member)
    obtain ⟨same, words, value⟩ := ih others
    have below := Limbs.ofDigits_lt others
    have whole : x + 2 ^ 32 * Nat.ofDigits (2 ^ 32) pn + 1 = x + 1 + 2 ^ 32 * Nat.ofDigits (2 ^ 32) pn := by ring
    have head : (x + 1) % 2 ^ 32 < 2 ^ 32 := Nat.mod_lt _ (by decide)
    rw [incrementFrom, Nat.ofDigits_cons, whole, List.length_cons, Limbs.carry_step (by decide)]
    split
    · next carries =>
      have carried : (x + 1) / 2 ^ 32 = 1 := by omega
      refine ⟨by rw [List.length_cons, same], ?_, by rw [Nat.ofDigits_cons, value, carried, Nat.add_comm 1]⟩
      intro w member
      rcases List.mem_cons.mp member with isFirst | later
      · rw [isFirst]
        exact head
      · exact words w later
    · next stays =>
      refine ⟨rfl, ?_, ?_⟩
      · intro w member
        rcases List.mem_cons.mp member with isFirst | later
        · rw [isFirst]
          exact head
        · exact others w later
      · rw [Nat.ofDigits_cons]
        by_cases isLast : pn = []
        · rw [isLast, Nat.ofDigits_nil, List.length_nil, Nat.pow_zero, Nat.mod_one]
        · have low : ¬(x + 1) % 2 ^ 32 = 0 := fun isZero => stays ⟨isZero, isLast⟩
          have carried : (x + 1) / 2 ^ 32 = 0 := by omega
          rw [carried, Nat.zero_add, Nat.mod_eq_of_lt below]

theorem mulWordFrom_spec (word : b32 < 2 ^ 32) {pn : List Nat} {carry : Nat} (small : ∀ w ∈ pn, w < 2 ^ 32)
    (carried : carry < 2 ^ 32) :
    (mulWordFrom b32 carry pn).length = pn.length ∧ (∀ w ∈ mulWordFrom b32 carry pn, w < 2 ^ 32) ∧
    Nat.ofDigits (2 ^ 32) (mulWordFrom b32 carry pn) = (carry + b32 * Nat.ofDigits (2 ^ 32) pn) % (2 ^ 32) ^ pn.length := by
  induction pn generalizing carry with
  | nil => exact ⟨rfl, nofun, (Nat.mod_one _).symm⟩
  | cons x pn ih =>
    have first := small x List.mem_cons_self
    have product : b32 * x ≤ (2 ^ 32 - 1) * (2 ^ 32 - 1) := Nat.mul_le_mul (by omega) (by omega)
    have fits : (carry + b32 * x) % 2 ^ 64 = carry + b32 * x := Nat.mod_eq_of_lt (by omega)
    obtain ⟨same, words, value⟩ := @ih ((carry + b32 * x) / 2 ^ 32) (fun w member => small w (List.mem_cons_of_mem _ member)) (by omega)
    rw [mulWordFrom, fits]
    refine ⟨by rw [List.length_cons, same, List.length_cons], ?_, ?_⟩
    · intro w member
      rcases List.mem_cons.mp member with isFirst | later
      · rw [isFirst]
        exact Nat.mod_lt _ (by decide)
      · exact words w later
    · have whole : carry + b32 * (x + 2 ^ 32 * Nat.ofDigits (2 ^ 32) pn) =
          carry + b32 * x + 2 ^ 32 * (b32 * Nat.ofDigits (2 ^ 32) pn) := by ring
      rw [Nat.ofDigits_cons, Nat.ofDigits_cons, whole, List.length_cons, Limbs.carry_step (by decide), value]

theorem mulAddFrom_spec (word : aj < 2 ^ 32) {pn b : List Nat} {carry : Nat} (length : pn.length ≤ b.length)
    (small : ∀ w ∈ pn, w < 2 ^ 32) (small' : ∀ w ∈ b, w < 2 ^ 32) (carried : carry < 2 ^ 32) :
    (mulAddFrom aj carry pn b).length = pn.length ∧ (∀ w ∈ mulAddFrom aj carry pn b, w < 2 ^ 32) ∧
    Nat.ofDigits (2 ^ 32) (mulAddFrom aj carry pn b) =
      (carry + Nat.ofDigits (2 ^ 32) pn + aj * Nat.ofDigits (2 ^ 32) b) % (2 ^ 32) ^ pn.length := by
  induction pn generalizing b carry with
  | nil =>
    rw [mulAddFrom.eq_2 _ _ _ _ (by intro x pn y b isCons; exact nomatch isCons)]
    exact ⟨rfl, nofun, (Nat.mod_one _).symm⟩
  | cons x pn ih =>
    match b, length with
    | y :: b, length =>
      have first := small x List.mem_cons_self
      have first' := small' y List.mem_cons_self
      have product : aj * y ≤ (2 ^ 32 - 1) * (2 ^ 32 - 1) := Nat.mul_le_mul (by omega) (by omega)
      have fits : (carry + x + aj * y) % 2 ^ 64 = carry + x + aj * y := Nat.mod_eq_of_lt (by omega)
      obtain ⟨same, words, value⟩ := @ih b ((carry + x + aj * y) / 2 ^ 32) (Nat.le_of_succ_le_succ length)
        (fun w member => small w (List.mem_cons_of_mem _ member)) (fun w member => small' w (List.mem_cons_of_mem _ member)) (by omega)
      rw [mulAddFrom, fits]
      refine ⟨by rw [List.length_cons, same, List.length_cons], ?_, ?_⟩
      · intro w member
        rcases List.mem_cons.mp member with isFirst | later
        · rw [isFirst]
          exact Nat.mod_lt _ (by decide)
        · exact words w later
      · have whole : carry + (x + 2 ^ 32 * Nat.ofDigits (2 ^ 32) pn) + aj * (y + 2 ^ 32 * Nat.ofDigits (2 ^ 32) b) =
            carry + x + aj * y + 2 ^ 32 * (Nat.ofDigits (2 ^ 32) pn + aj * Nat.ofDigits (2 ^ 32) b) := by ring
        rw [Nat.ofDigits_cons, Nat.ofDigits_cons, Nat.ofDigits_cons, whole, List.length_cons, Limbs.carry_step (by decide), value,
          Nat.add_assoc ((carry + x + aj * y) / 2 ^ 32)]

theorem mulFrom_spec {b : List Nat} (small' : ∀ w ∈ b, w < 2 ^ 32) {a pn : List Nat} {j : Nat} (length : j + a.length = pn.length)
    (same : pn.length = b.length) (words : ∀ w ∈ a, w < 2 ^ 32) (small : ∀ w ∈ pn, w < 2 ^ 32) :
    (mulFrom b j a pn).length = pn.length ∧ (∀ w ∈ mulFrom b j a pn, w < 2 ^ 32) ∧
    Nat.ofDigits (2 ^ 32) (mulFrom b j a pn) =
      (Nat.ofDigits (2 ^ 32) pn + (2 ^ 32) ^ j * Nat.ofDigits (2 ^ 32) a * Nat.ofDigits (2 ^ 32) b) % (2 ^ 32) ^ pn.length := by
  induction a generalizing j pn with
  | nil =>
    refine ⟨rfl, small, ?_⟩
    rw [Nat.ofDigits_nil, Nat.mul_zero, Nat.zero_mul, Nat.add_zero]
    exact (Nat.mod_eq_of_lt (Limbs.ofDigits_lt small)).symm
  | cons aj a ih =>
    rw [List.length_cons] at length
    have word := words aj List.mem_cons_self
    obtain ⟨kept, rowWords, row⟩ := @mulAddFrom_spec aj word (pn.drop j) b 0 (by rw [List.length_drop]; omega)
      (fun w member => small w (List.mem_of_mem_drop member)) small' (by decide)
    have rowLength : (pn.take j ++ mulAddFrom aj 0 (pn.drop j) b).length = pn.length := by
      rw [List.length_append, kept, List.length_take, List.length_drop]
      omega
    have rowSmall : ∀ w ∈ pn.take j ++ mulAddFrom aj 0 (pn.drop j) b, w < 2 ^ 32 := by
      intro w member
      rcases List.mem_append.mp member with before | changed
      · exact small w (List.mem_of_mem_take before)
      · exact rowWords w changed
    -- a row adds the product of one word at its place
    have rowValue : Nat.ofDigits (2 ^ 32) (pn.take j ++ mulAddFrom aj 0 (pn.drop j) b) =
        (Nat.ofDigits (2 ^ 32) pn + (2 ^ 32) ^ j * aj * Nat.ofDigits (2 ^ 32) b) % (2 ^ 32) ^ pn.length := by
      have low := Limbs.ofDigits_lt fun w member => small w (List.mem_of_mem_take (i := j) member)
      have place : (pn.take j).length = j := by
        rw [List.length_take]
        omega
      have split : pn.length = j + (pn.drop j).length := by
        rw [List.length_drop]
        omega
      rw [place] at low
      rw [Nat.ofDigits_append, place, row, ← Limbs.low_step low, ← split, Limbs.ofDigits_take_append_drop pn (show j ≤ pn.length by omega)]
      congr 1
      ring
    obtain ⟨length', smallResult, value⟩ := @ih (pn.take j ++ mulAddFrom aj 0 (pn.drop j) b) (j + 1) (by rw [rowLength]; omega)
      (rowLength.trans same) (fun w member => words w (List.mem_cons_of_mem _ member)) rowSmall
    rw [mulFrom]
    refine ⟨length'.trans rowLength, smallResult, ?_⟩
    rw [value, rowLength, rowValue, Nat.mod_add_mod, Nat.ofDigits_cons, Nat.pow_succ (n := 2 ^ 32) (m := j)]
    congr 1
    ring

theorem compareFrom_spec {b : List Nat} (length : a.length = b.length) (small : ∀ w ∈ a, w < 2 ^ 32)
    (small' : ∀ w ∈ b, w < 2 ^ 32) :
    compareFrom a b = if Nat.ofDigits (2 ^ 32) a.reverse < Nat.ofDigits (2 ^ 32) b.reverse then -1
      else if Nat.ofDigits (2 ^ 32) b.reverse < Nat.ofDigits (2 ^ 32) a.reverse then 1 else 0 := by
  induction a generalizing b with
  | nil =>
    obtain rfl := List.length_eq_zero_iff.mp length.symm
    rfl
  | cons x a ih =>
    match b, length with
    | y :: b, length =>
      have below : ∀ w ∈ a.reverse, w < 2 ^ 32 := fun w member => small w (List.mem_cons_of_mem _ (List.mem_reverse.mp member))
      have below' : ∀ w ∈ b.reverse, w < 2 ^ 32 := fun w member => small' w (List.mem_cons_of_mem _ (List.mem_reverse.mp member))
      have same : a.reverse.length = b.reverse.length := by
        rw [List.length_reverse, List.length_reverse]
        exact Nat.succ.inj length
      rw [compareFrom, List.reverse_cons, List.reverse_cons]
      by_cases less : x < y
      · rw [if_pos less, if_pos (Limbs.ofDigits_lt_of_high below same less)]
      · by_cases more : x > y
        · have order := Limbs.ofDigits_lt_of_high below' same.symm more
          rw [if_neg less, if_pos more, if_neg (Nat.not_lt.mpr (Nat.le_of_lt order)), if_pos order]
        · obtain rfl : x = y := by omega
          rw [if_neg less, if_neg more, ih (Nat.succ.inj length) (fun w member => small w (List.mem_cons_of_mem _ member))
            fun w member => small' w (List.mem_cons_of_mem _ member), Nat.ofDigits_append, Nat.ofDigits_append, same]
          simp only [Nat.add_lt_add_iff_right]

theorem bitsOfWord_spec (nonzero : w ≠ 0) (small : w < 2 ^ (k + 1)) : bitsOfWord w k = Nat.size w := by
  induction k with
  | zero =>
    obtain rfl : w = 1 := by omega
    exact Nat.size_one.symm
  | succ k ih =>
    have bit : w &&& 1 <<< (k + 1) ≠ 0 ↔ 2 ^ (k + 1) ≤ w := by
      rw [Nat.one_shiftLeft, Nat.and_two_pow, Nat.toNat_testBit]
      have power := Nat.two_pow_pos (k + 1)
      have quotient : w / 2 ^ (k + 1) < 2 := by
        rw [Nat.div_lt_iff_lt_mul power, Nat.mul_comm, ← Nat.pow_succ]
        exact small
      by_cases above : 2 ^ (k + 1) ≤ w
      · have one : w / 2 ^ (k + 1) = 1 := by
          have := (Nat.le_div_iff_mul_le power).mpr (show 1 * 2 ^ (k + 1) ≤ w by omega)
          omega
        rw [one]
        exact iff_of_true (by omega) above
      · rw [Nat.div_eq_of_lt (Nat.not_le.mp above)]
        exact iff_of_false (by simp) above
    rw [bitsOfWord]
    by_cases above : 2 ^ (k + 1) ≤ w
    · rw [if_pos (bit.mpr above)]
      have most := Nat.size_le.mpr small
      have least := Nat.lt_size.mpr above
      omega
    · rw [if_neg (mt bit.mp above)]
      exact ih (Nat.not_le.mp above)

theorem size_above (below : low < 2 ^ m) (nonzero : w ≠ 0) : Nat.size (low + 2 ^ m * w) = m + Nat.size w := by
  have positive : 0 < Nat.size w := Nat.size_pos.mpr (Nat.pos_of_ne_zero nonzero)
  apply Nat.le_antisymm
  · apply Nat.size_le.mpr
    have fits : w + 1 ≤ 2 ^ Nat.size w := Nat.lt_size_self w
    calc low + 2 ^ m * w < 2 ^ m * (w + 1) := by rw [Nat.mul_succ]; omega
      _ ≤ 2 ^ m * 2 ^ Nat.size w := Nat.mul_le_mul_left _ fits
      _ = 2 ^ (m + Nat.size w) := (Nat.pow_add _ _ _).symm
  · have top : 2 ^ (Nat.size w - 1) ≤ w := Nat.lt_size.mp (by omega)
    have reached : 2 ^ (m + (Nat.size w - 1)) ≤ low + 2 ^ m * w := by
      rw [Nat.pow_add]
      exact (Nat.mul_le_mul_left _ top).trans (Nat.le_add_left _ _)
    have := Nat.lt_size.mpr reached
    omega

theorem bitsFrom_spec (small : ∀ w ∈ l, w < 2 ^ 32) : bitsFrom l = Nat.size (Nat.ofDigits (2 ^ 32) l.reverse) := by
  induction l with
  | nil => exact Nat.size_zero.symm
  | cons w below ih =>
    have others : ∀ v ∈ below.reverse, v < 2 ^ 32 := fun v member => small v (List.mem_cons_of_mem _ (List.mem_reverse.mp member))
    have power : (2 ^ 32) ^ below.length = 2 ^ (32 * below.length) := (Nat.pow_mul _ _ _).symm
    have low := Limbs.ofDigits_lt others
    rw [List.length_reverse, power] at low
    rw [bitsFrom, List.reverse_cons, Nat.ofDigits_append, Nat.ofDigits_singleton, List.length_reverse, power]
    by_cases isZero : w = 0
    · rw [if_neg (fun other => other isZero), isZero, Nat.mul_zero, Nat.add_zero]
      exact ih fun v member => small v (List.mem_cons_of_mem _ member)
    · rw [if_pos isZero, bitsOfWord_spec isZero (small w List.mem_cons_self), size_above low isZero]

theorem value_lt : x.value < 2 ^ (32 * WIDTH) := by
  have below := Limbs.ofDigits_lt x.words
  rwa [x.size, ← Nat.pow_mul] at below

@[simp] theorem value_zero (WIDTH : Nat) : (zero WIDTH).value = 0 := by
  have zeros : ∀ n, Nat.ofDigits (2 ^ 32) (List.replicate n 0) = 0 := by
    intro n
    induction n with
    | zero => rfl
    | succ n ih => rw [List.replicate_succ, Nat.ofDigits_cons, ih, Nat.mul_zero]
  exact zeros WIDTH

theorem sameSize (y : base_uint WIDTH) : x.pn.length = y.pn.length := x.size.trans y.size.symm

def add : base_uint WIDTH where
  pn := addFrom 0 x.pn b.pn
  size := (addFrom_spec (sameSize x b) x.words b.words (by decide)).1.trans x.size
  words := (addFrom_spec (sameSize x b) x.words b.words (by decide)).2.1

theorem value_add : (x.add b).value = (x.value + b.value) % 2 ^ (32 * WIDTH) := by
  have sum := (@addFrom_spec x.pn b.pn 0 (sameSize x b) x.words b.words (by decide)).2.2
  rwa [x.size, ← Nat.pow_mul, Nat.zero_add] at sum

def neg : base_uint WIDTH where
  pn := incrementFrom (complement x.pn)
  size := (incrementFrom_spec (complement_spec x.words).1).1.trans ((List.length_map _).trans x.size)
  words := (incrementFrom_spec (complement_spec x.words).1).2.1

theorem value_neg : x.neg.value = (2 ^ (32 * WIDTH) - x.value) % 2 ^ (32 * WIDTH) := by
  obtain ⟨words, whole⟩ := complement_spec x.words
  have next := (incrementFrom_spec words).2.2
  have length : (complement x.pn).length = WIDTH := (List.length_map _).trans x.size
  rw [x.size, ← Nat.pow_mul] at whole
  rw [length, ← Nat.pow_mul] at next
  have rest : Nat.ofDigits (2 ^ 32) (complement x.pn) + 1 = 2 ^ (32 * WIDTH) - x.value := by
    unfold value
    omega
  rwa [rest] at next

def sub : base_uint WIDTH := x.add b.neg

theorem value_sub : ((x.sub b).value : Int) = ((x.value : Int) - b.value) % 2 ^ (32 * WIDTH) := by
  have below := b.value_lt
  have whole : ((x.value + (2 ^ (32 * WIDTH) - b.value) : Nat) : Int) = (x.value : Int) - b.value + 2 ^ (32 * WIDTH) := by
    push_cast [Nat.le_of_lt below]
    ring
  rw [sub, value_add, value_neg, Nat.add_mod_mod, Int.natCast_mod, whole]
  push_cast
  exact Int.add_emod_right _ _

theorem value_sub_of_le {x b : base_uint WIDTH} (less : b.value ≤ x.value) : (x.sub b).value = x.value - b.value := by
  have above := x.value_lt
  have whole : x.value + (2 ^ (32 * WIDTH) - b.value) = x.value - b.value + 2 ^ (32 * WIDTH) := by omega
  rw [sub, value_add, value_neg, Nat.add_mod_mod, whole, Nat.add_mod_right]
  exact Nat.mod_eq_of_lt (by omega)

def mulWord (b32 : UInt32) : base_uint WIDTH where
  pn := mulWordFrom b32.toNat 0 x.pn
  size := (mulWordFrom_spec b32.toNat_lt x.words (by decide)).1.trans x.size
  words := (mulWordFrom_spec b32.toNat_lt x.words (by decide)).2.1

theorem value_mulWord (b32 : UInt32) : (x.mulWord b32).value = (x.value * b32.toNat) % 2 ^ (32 * WIDTH) := by
  have product := (@mulWordFrom_spec b32.toNat b32.toNat_lt x.pn 0 x.words (by decide)).2.2
  rwa [x.size, ← Nat.pow_mul, Nat.zero_add, Nat.mul_comm] at product

theorem mul_length : 0 + x.pn.length = (zero WIDTH).pn.length := by rw [Nat.zero_add, x.size, (zero WIDTH).size]

def mul : base_uint WIDTH where
  pn := mulFrom b.pn 0 x.pn (zero WIDTH).pn
  size := (mulFrom_spec b.words (mul_length x) (sameSize (zero WIDTH) b) x.words (zero WIDTH).words).1.trans (zero WIDTH).size
  words := (mulFrom_spec b.words (mul_length x) (sameSize (zero WIDTH) b) x.words (zero WIDTH).words).2.1

theorem value_mul : (x.mul b).value = (x.value * b.value) % 2 ^ (32 * WIDTH) := by
  have product := (mulFrom_spec b.words (mul_length x) (sameSize (zero WIDTH) b) x.words (zero WIDTH).words).2.2
  have none_ : Nat.ofDigits (2 ^ 32) (zero WIDTH).pn = 0 := value_zero WIDTH
  rwa [none_, (zero WIDTH).size, Nat.pow_zero, Nat.one_mul, Nat.zero_add, ← Nat.pow_mul] at product

def compareTo : Int := compareFrom x.pn.reverse b.pn.reverse

theorem compareTo_eq : x.compareTo b = if x.value < b.value then -1 else if b.value < x.value then 1 else 0 := by
  have order := compareFrom_spec (a := x.pn.reverse) (b := b.pn.reverse) (by rw [List.length_reverse, List.length_reverse, sameSize x b])
    (fun w member => x.words w (List.mem_reverse.mp member)) fun w member => b.words w (List.mem_reverse.mp member)
  rwa [List.reverse_reverse, List.reverse_reverse] at order

def bits : Nat := bitsFrom x.pn.reverse

theorem bits_eq : x.bits = Nat.size x.value := by
  have length := bitsFrom_spec (l := x.pn.reverse) fun w member => x.words w (List.mem_reverse.mp member)
  rwa [List.reverse_reverse] at length

end base_uint

end SchillingCoin
