import SchillingCoin.Primitives.BaseUint

/-!
The shifts of big integers and their division, after `operator<<=`, `operator>>=` and `operator/=` in `uint256.cpp`.
-/

namespace SchillingCoin

namespace base_uint

open Limbs

variable {WIDTH : Nat}

variable (a : List Nat) (j : Nat) (x b : base_uint WIDTH)

/-- The body of the loop of `operator<<=` for the word `i` of `a`. -/
def shlStep (WIDTH k shift : Nat) (pn : List Nat) (i : Nat) : List Nat :=
  let pn := if i + k + 1 < WIDTH ∧ shift ≠ 0 then orWord pn (i + k + 1) (a.getD i 0 >>> (32 - shift)) else pn
  if i + k < WIDTH then orWord pn (i + k) (a.getD i 0 <<< shift % 2 ^ 32) else pn

def shlWords (WIDTH shift : Nat) : List Nat :=
  (List.range WIDTH).foldl (shlStep a WIDTH (shift / 32) (shift % 32)) (List.replicate WIDTH 0)

/-- The body of the loop of `operator>>=`; the comparisons are of `int`. -/
def shrStep (k shift : Nat) (pn : List Nat) (i : Nat) : List Nat :=
  let pn := if i ≥ k + 1 ∧ shift ≠ 0 then orWord pn (i - k - 1) (a.getD i 0 <<< (32 - shift) % 2 ^ 32) else pn
  if i ≥ k then orWord pn (i - k) (a.getD i 0 >>> shift) else pn

def shrWords (WIDTH shift : Nat) : List Nat :=
  (List.range WIDTH).foldl (shrStep a (shift / 32) (shift % 32)) (List.replicate WIDTH 0)

theorem getD_lt {a : List Nat} (words : ∀ w ∈ a, w < 2 ^ 32) (i : Nat) : a.getD i 0 < 2 ^ 32 := by
  rw [List.getD_eq_getElem?_getD]
  cases at_ : a[i]? with
  | none => exact Nat.two_pow_pos 32
  | some w => exact words w (List.mem_of_getElem? at_)

/-- What is in the words after the first `n` of `a`: their value in its place, the last of them not full, and nothing behind it. -/
structure Shifting (a : List Nat) (k s n : Nat) (pn : List Nat) : Prop where
  length : pn.length = a.length
  words : ∀ w ∈ pn, w < 2 ^ 32
  value : Nat.ofDigits (2 ^ 32) pn ≡ Nat.ofDigits (2 ^ 32) (a.take n) * 2 ^ (32 * k + s) [MOD (2 ^ 32) ^ a.length]
  last : pn.getD (n + k) 0 < 2 ^ s
  behind : ∀ j, n + k < j → pn.getD j 0 = 0

section

variable {pn : List Nat} {i d : Nat} {goes : Prop} [Decidable goes]

theorem or_modEq {r : Nat} (inside : goes → i < pn.length) (outside : ¬goes → pn.length ≤ i ∨ d = 0) (below : pn.getD i 0 < 2 ^ r)
    (multiple : 2 ^ r ∣ d) :
    Nat.ofDigits (2 ^ 32) (if goes then orWord pn i d else pn) ≡ Nat.ofDigits (2 ^ 32) pn + d * (2 ^ 32) ^ i [MOD (2 ^ 32) ^ pn.length] := by
  split
  · next here =>
    rw [ofDigits_orWord (inside here) below multiple]
  · next skipped =>
    have none_ : d * (2 ^ 32) ^ i ≡ 0 [MOD (2 ^ 32) ^ pn.length] := by
      rcases outside skipped with behind | isZero
      · exact (Nat.modEq_zero_iff_dvd).mpr (Dvd.dvd.mul_left (Nat.pow_dvd_pow _ behind) d)
      · rw [isZero, Nat.zero_mul]
    exact (none_.add_left _).symm

theorem length_or : (if goes then orWord pn i d else pn).length = pn.length := by
  split
  · exact length_orWord pn i d
  · rfl

theorem or_words (words : ∀ w ∈ pn, w < 2 ^ 32) (word : d < 2 ^ 32) : ∀ w ∈ (if goes then orWord pn i d else pn), w < 2 ^ 32 := by
  split
  · exact orWord_lt words word i
  · exact words

theorem getD_or_of_ne (inside : goes → i < pn.length) {j : Nat} (other : i ≠ j) :
    (if goes then orWord pn i d else pn).getD j 0 = pn.getD j 0 := by
  split
  · next here => rw [getD_orWord (inside here), if_neg other]
  · rfl

end

theorem Shifting.step {a pn : List Nat} {k s n : Nat} (words : ∀ w ∈ a, w < 2 ^ 32) (small : s < 32) (inside : n < a.length)
    (h : Shifting a k s n pn) : Shifting a k s (n + 1) (shlStep a a.length k s pn n) := by
  have taken := @ofDigits_take_succ (2 ^ 32) _ _ inside
  have word := getD_lt words n
  unfold shlStep
  dsimp only
  generalize a.getD n 0 = x at word taken
  -- the word is cut into the part that stays and the part that goes to the next one
  have high : x >>> (32 - s) < 2 ^ s := by
    rw [Nat.shiftRight_eq_div_pow, Nat.div_lt_iff_lt_mul (by positivity), ← Nat.pow_add, show s + (32 - s) = 32 by omega]
    exact word
  have parts : x * 2 ^ s = x <<< s % 2 ^ 32 + 2 ^ 32 * (x >>> (32 - s)) := by
    have quotient : x * 2 ^ s / 2 ^ 32 = x >>> (32 - s) := by
      rw [Nat.shiftRight_eq_div_pow, show 32 = 32 - s + s by omega, Nat.pow_add, Nat.mul_div_mul_right _ _ (by positivity),
        show 32 - s + s - s = 32 - s by omega]
    rw [Nat.shiftLeft_eq, ← quotient, Nat.mod_add_div]
  have multiple : 2 ^ s ∣ x <<< s % 2 ^ 32 := by
    rw [Nat.shiftLeft_eq]
    exact (Nat.dvd_mod_iff (Nat.pow_dvd_pow 2 (by omega))).mpr (Nat.dvd_mul_left _ _)
  have lowWord : x <<< s % 2 ^ 32 < 2 ^ 32 := Nat.mod_lt _ (by decide)
  have highWord : x >>> (32 - s) < 2 ^ 32 := Nat.lt_of_lt_of_le high (Nat.pow_le_pow_right (by omega) (by omega))
  generalize x <<< s % 2 ^ 32 = low at parts multiple lowWord
  have empty : pn.getD (n + k + 1) 0 < 2 ^ 0 := by
    rw [h.behind (n + k + 1) (by omega)]
    exact Nat.one_pos
  have noHigh : s = 0 → x >>> (32 - s) = 0 := by
    intro isZero
    have one : 2 ^ s = 1 := by rw [isZero, Nat.pow_zero]
    omega
  generalize x >>> (32 - s) = high_ at high parts highWord noHigh
  have length := h.length
  have intoNext : n + k + 1 < a.length ∧ s ≠ 0 → n + k + 1 < pn.length := by omega
  have first := @or_modEq pn (n + k + 1) high_ (n + k + 1 < a.length ∧ s ≠ 0) _ 0 intoNext (by omega) empty (one_dvd _)
  have firstWords := @or_words pn (n + k + 1) high_ (n + k + 1 < a.length ∧ s ≠ 0) _ h.words highWord
  have firstLength := @length_or pn (n + k + 1) high_ (n + k + 1 < a.length ∧ s ≠ 0) _
  have kept : ∀ j, n + k + 1 ≠ j → _ = _ := fun j other => @getD_or_of_ne pn (n + k + 1) high_ (n + k + 1 < a.length ∧ s ≠ 0) _ intoNext j other
  have next : (if n + k + 1 < a.length ∧ s ≠ 0 then orWord pn (n + k + 1) high_ else pn).getD (n + k + 1) 0 < 2 ^ s := by
    have one : pn.getD (n + k + 1) 0 = 0 := h.behind (n + k + 1) (by omega)
    split
    · next here =>
      rw [getD_orWord (intoNext here), if_pos rfl, one, Nat.zero_or]
      exact high
    · rw [one]
      exact Nat.two_pow_pos s
  generalize (if n + k + 1 < a.length ∧ s ≠ 0 then orWord pn (n + k + 1) high_ else pn) = pn1 at first firstWords firstLength kept next ⊢
  have intoHere : n + k < a.length → n + k < pn1.length := by omega
  have second := @or_modEq pn1 (n + k) low (n + k < a.length) _ s intoHere (by omega) (by rw [kept _ (by omega)]; exact h.last) multiple
  refine ⟨?_, or_words firstWords lowWord, ?_, ?_, ?_⟩
  · rw [length_or, firstLength, length]
  · rw [firstLength, length] at second
    rw [length] at first
    refine second.trans ((first.add_right _).trans (((h.value.add_right _).add_right _).trans ?_))
    have whole : (Nat.ofDigits (2 ^ 32) (a.take n) + x * (2 ^ 32) ^ n) * 2 ^ (32 * k + s) =
        Nat.ofDigits (2 ^ 32) (a.take n) * 2 ^ (32 * k + s) + high_ * (2 ^ 32) ^ (n + k + 1) + low * (2 ^ 32) ^ (n + k) := by
      calc (Nat.ofDigits (2 ^ 32) (a.take n) + x * (2 ^ 32) ^ n) * 2 ^ (32 * k + s)
          = Nat.ofDigits (2 ^ 32) (a.take n) * 2 ^ (32 * k + s) + x * 2 ^ s * ((2 ^ 32) ^ n * (2 ^ 32) ^ k) := by
            rw [Nat.pow_add, Nat.pow_mul]
            ring
        _ = _ := by
            rw [parts, ← Nat.pow_add]
            ring
    rw [taken, whole]
  · rw [getD_or_of_ne intoHere (by omega), show n + 1 + k = n + k + 1 by omega]
    exact next
  · intro j later
    rw [getD_or_of_ne intoHere (by omega), kept j (by omega)]
    exact h.behind j (by omega)

theorem foldl_range {α : Type} {step : α → Nat → α} {start : α} {invariant : Nat → α → Prop} (n : Nat) (first : invariant 0 start)
    (next : ∀ i x, i < n → invariant i x → invariant (i + 1) (step x i)) : invariant n ((List.range n).foldl step start) := by
  induction n with
  | zero => exact first
  | succ n ih =>
    rw [List.range_succ, List.foldl_append]
    exact next n _ (Nat.lt_succ_self n) (ih fun i x less => next i x (Nat.lt_succ_of_lt less))

theorem getD_zeros (n j : Nat) : (List.replicate n 0).getD j 0 = 0 := by
  rw [List.getD_eq_getElem?_getD, List.getElem?_replicate]
  split <;> rfl

theorem zeros_words (n : Nat) : ∀ w ∈ List.replicate n 0, w < 2 ^ 32 := by
  intro w member
  rw [List.eq_of_mem_replicate member]
  exact Nat.two_pow_pos 32

theorem shlWords_spec {a : List Nat} (words : ∀ w ∈ a, w < 2 ^ 32) (shift : Nat) :
    Shifting a (shift / 32) (shift % 32) a.length (shlWords a a.length shift) := by
  refine @foldl_range _ _ _ (Shifting a (shift / 32) (shift % 32)) a.length ?_ ?_
  · refine ⟨List.length_replicate, zeros_words _, ?_, ?_, fun j _ => getD_zeros _ j⟩
    · have none_ : Nat.ofDigits (2 ^ 32) (List.replicate a.length 0) = 0 := value_zero a.length
      rw [none_, List.take_zero, Nat.ofDigits_nil, Nat.zero_mul]
    · rw [getD_zeros]
      exact Nat.two_pow_pos _
  · exact fun i pn inside h => h.step words (Nat.mod_lt _ (by decide)) inside

/-- What is in the words after the first `n` of `a`: what is left of their value, the last of them not full, and nothing behind it. -/
structure ShiftingDown (a : List Nat) (k s n : Nat) (pn : List Nat) : Prop where
  length : pn.length = a.length
  words : ∀ w ∈ pn, w < 2 ^ 32
  value : Nat.ofDigits (2 ^ 32) pn = Nat.ofDigits (2 ^ 32) (a.take n) / 2 ^ (32 * k + s)
  last : k < n → pn.getD (n - k - 1) 0 < 2 ^ (32 - s)
  behind : ∀ j, n ≤ j + k → pn.getD j 0 = 0

theorem div_above {x k s n : Nat} (below : low < (2 ^ 32) ^ n) (word : x < 2 ^ 32) (small : s < 32) :
    (low + x * (2 ^ 32) ^ n) / 2 ^ (32 * k + s) =
      if n < k then 0
      else if n = k then x / 2 ^ s
      else low / 2 ^ (32 * k + s) + x * 2 ^ (32 - s) * (2 ^ 32) ^ (n - k - 1) := by
  have place : (2 : Nat) ^ (32 * k + s) = (2 ^ 32) ^ k * 2 ^ s := by rw [Nat.pow_add, Nat.pow_mul]
  split
  · next less =>
    have room : (2 ^ 32) ^ (n + 1) ≤ (2 ^ 32) ^ k := Nat.pow_le_pow_right (by decide) less
    have shift : (2 ^ 32) ^ k * 1 ≤ (2 ^ 32) ^ k * 2 ^ s := Nat.mul_le_mul_left _ (Nat.two_pow_pos s)
    have top : low + x * (2 ^ 32) ^ n < (2 ^ 32) ^ (n + 1) := by
      rw [Nat.pow_succ (n := 2 ^ 32) (m := n), Nat.mul_comm ((2 ^ 32) ^ n)]
      calc low + x * (2 ^ 32) ^ n < (x + 1) * (2 ^ 32) ^ n := by rw [Nat.succ_mul]; omega
        _ ≤ 2 ^ 32 * (2 ^ 32) ^ n := Nat.mul_le_mul_right _ word
    rw [place]
    exact Nat.div_eq_of_lt (by omega)
  · split
    · next here =>
      rw [here] at below ⊢
      rw [place, ← Nat.div_div_eq_div_mul, Nat.add_mul_div_right _ _ (by positivity), Nat.div_eq_of_lt below, Nat.zero_add]
    · have split : (2 ^ 32) ^ n = 2 ^ (32 * k + s) * (2 ^ (32 - s) * (2 ^ 32) ^ (n - k - 1)) := by
        rw [← Nat.pow_mul, ← Nat.pow_mul, ← Nat.pow_add, ← Nat.pow_add]
        congr 1
        omega
      have whole : low + x * (2 ^ 32) ^ n = low + 2 ^ (32 * k + s) * (x * 2 ^ (32 - s) * (2 ^ 32) ^ (n - k - 1)) := by
        rw [split]
        ring
      rw [whole, Nat.add_mul_div_left _ _ (by positivity)]

theorem ShiftingDown.step {a pn : List Nat} {k s n : Nat} (words : ∀ w ∈ a, w < 2 ^ 32) (small : s < 32) (inside : n < a.length)
    (h : ShiftingDown a k s n pn) : ShiftingDown a k s (n + 1) (shrStep a k s pn n) := by
  have taken := @ofDigits_take_succ (2 ^ 32) _ _ inside
  have word := getD_lt words n
  have below : Nat.ofDigits (2 ^ 32) (a.take n) < (2 ^ 32) ^ n := by
    have low := ofDigits_lt fun w member => words w (List.mem_of_mem_take (i := n) member)
    rwa [List.length_take, Nat.min_eq_left (Nat.le_of_lt inside)] at low
  have length := h.length
  have behind := h.behind
  unfold shrStep
  dsimp only
  generalize a.getD n 0 = x at word taken
  have high : x >>> s < 2 ^ (32 - s) := by
    rw [Nat.shiftRight_eq_div_pow, Nat.div_lt_iff_lt_mul (by positivity), ← Nat.pow_add, show 32 - s + s = 32 by omega]
    exact word
  have highWord : x >>> s < 2 ^ 32 := Nat.lt_of_lt_of_le high (Nat.pow_le_pow_right (by omega) (by omega))
  have lowWord : x <<< (32 - s) % 2 ^ 32 < 2 ^ 32 := Nat.mod_lt _ (by decide)
  have multiple : 2 ^ (32 - s) ∣ x <<< (32 - s) % 2 ^ 32 := by
    rw [Nat.shiftLeft_eq]
    exact (Nat.dvd_mod_iff (Nat.pow_dvd_pow 2 (by omega))).mpr (Nat.dvd_mul_left _ _)
  have parts : x * 2 ^ (32 - s) = x <<< (32 - s) % 2 ^ 32 + 2 ^ 32 * (x >>> s) := by
    have quotient : x * 2 ^ (32 - s) / 2 ^ 32 = x >>> s := by
      have place : (2 : Nat) ^ 32 = 2 ^ s * 2 ^ (32 - s) := by rw [← Nat.pow_add, show s + (32 - s) = 32 by omega]
      rw [Nat.shiftRight_eq_div_pow, place, Nat.mul_div_mul_right _ _ (by positivity)]
    rw [Nat.shiftLeft_eq, ← quotient, Nat.mod_add_div]
  have noLow : s = 0 → x <<< (32 - s) % 2 ^ 32 = 0 := by
    intro isZero
    rw [isZero, Nat.shiftLeft_eq, Nat.mul_mod_left]
  generalize x <<< (32 - s) % 2 ^ 32 = low at lowWord multiple parts noLow
  -- the first or, which adds to the word before
  have intoBefore : n ≥ k + 1 ∧ s ≠ 0 → n - k - 1 < pn.length := by omega
  have first : Nat.ofDigits (2 ^ 32) (if n ≥ k + 1 ∧ s ≠ 0 then orWord pn (n - k - 1) low else pn) =
      Nat.ofDigits (2 ^ 32) pn + if n ≥ k + 1 then low * (2 ^ 32) ^ (n - k - 1) else 0 := by
    by_cases above : n ≥ k + 1
    · by_cases isZero : s = 0
      · rw [if_neg (by omega), if_pos above, noLow isZero, Nat.zero_mul, Nat.add_zero]
      · rw [if_pos ⟨above, isZero⟩, if_pos above, ofDigits_orWord (intoBefore ⟨above, isZero⟩) (h.last above) multiple]
    · rw [if_neg (by omega), if_neg above, Nat.add_zero]
  have firstWords := @or_words pn (n - k - 1) low (n ≥ k + 1 ∧ s ≠ 0) _ h.words lowWord
  have firstLength := @length_or pn (n - k - 1) low (n ≥ k + 1 ∧ s ≠ 0) _
  have kept : ∀ j, n ≤ j + k → (if n ≥ k + 1 ∧ s ≠ 0 then orWord pn (n - k - 1) low else pn).getD j 0 = 0 := by
    intro j later
    split
    · next here => rw [getD_orWord (intoBefore here), if_neg (by omega), behind j later]
    · exact behind j later
  generalize (if n ≥ k + 1 ∧ s ≠ 0 then orWord pn (n - k - 1) low else pn) = pn1 at first firstWords firstLength kept ⊢
  have intoHere : n ≥ k → n - k < pn1.length := by omega
  have second : Nat.ofDigits (2 ^ 32) (if n ≥ k then orWord pn1 (n - k) (x >>> s) else pn1) =
      Nat.ofDigits (2 ^ 32) pn1 + if n ≥ k then (x >>> s) * (2 ^ 32) ^ (n - k) else 0 := by
    split
    · next here =>
      have empty : pn1.getD (n - k) 0 < 2 ^ 0 := by
        rw [kept _ (by omega)]
        exact Nat.one_pos
      rw [ofDigits_orWord (intoHere here) empty (one_dvd _)]
    · rfl
  refine ⟨?_, or_words firstWords highWord, ?_, ?_, ?_⟩
  · rw [length_or, firstLength, length]
  · rw [second, first, taken, div_above below word small, h.value]
    by_cases less : n < k
    · have none_ : Nat.ofDigits (2 ^ 32) (a.take n) / 2 ^ (32 * k + s) = 0 := by
        have place := @div_above _ 0 k s n below (by decide) small
        rwa [if_pos less, Nat.zero_mul, Nat.add_zero] at place
      rw [if_pos less, if_neg (by omega), if_neg (by omega), none_]
    · by_cases here : n = k
      · have none_ : Nat.ofDigits (2 ^ 32) (a.take n) / 2 ^ (32 * k + s) = 0 := by
          have place := @div_above _ 0 k s n below (by decide) small
          rwa [if_neg less, if_pos here, Nat.zero_div, Nat.zero_mul, Nat.add_zero] at place
        rw [if_neg less, if_pos here, if_neg (by omega), if_pos (by omega), none_, here, Nat.sub_self, Nat.pow_zero, Nat.mul_one,
          Nat.shiftRight_eq_div_pow, Nat.zero_add]
      · have place : (2 ^ 32) ^ (n - k) = 2 ^ 32 * (2 ^ 32) ^ (n - k - 1) := by
          rw [← pow_succ', show n - k - 1 + 1 = n - k by omega]
        rw [if_neg less, if_neg here, if_pos (by omega), if_pos (by omega), parts, place]
        ring
  · intro above
    rw [show n + 1 - k - 1 = n - k by omega]
    split
    · next here =>
      rw [getD_orWord (intoHere here), if_pos rfl, kept _ (by omega), Nat.zero_or]
      exact high
    · omega
  · intro j later
    split
    · next here => rw [getD_orWord (intoHere here), if_neg (by omega), kept j (by omega)]
    · exact kept j (by omega)

theorem shrWords_spec {a : List Nat} (words : ∀ w ∈ a, w < 2 ^ 32) (shift : Nat) :
    ShiftingDown a (shift / 32) (shift % 32) a.length (shrWords a a.length shift) := by
  refine @foldl_range _ _ _ (ShiftingDown a (shift / 32) (shift % 32)) a.length ?_ ?_
  · refine ⟨List.length_replicate, zeros_words _, ?_, fun less => absurd less (Nat.not_lt_zero _), fun j _ => getD_zeros _ j⟩
    have none_ : Nat.ofDigits (2 ^ 32) (List.replicate a.length 0) = 0 := value_zero a.length
    rw [none_, List.take_zero, Nat.ofDigits_nil, Nat.zero_div]
  · exact fun i pn inside h => h.step words (Nat.mod_lt _ (by decide)) inside

def shl (shift : Nat) : base_uint WIDTH where
  pn := shlWords x.pn x.pn.length shift
  size := (shlWords_spec x.words shift).length.trans x.size
  words := (shlWords_spec x.words shift).words

theorem value_shl (shift : Nat) : (x.shl shift).value = (x.value * 2 ^ shift) % 2 ^ (32 * WIDTH) := by
  have shifted := (shlWords_spec x.words shift).value
  have modulus : (2 ^ 32) ^ x.pn.length = 2 ^ (32 * WIDTH) := by rw [x.size, ← Nat.pow_mul]
  rw [List.take_length, modulus, show 32 * (shift / 32) + shift % 32 = shift by omega] at shifted
  rw [← Nat.mod_eq_of_lt (x.shl shift).value_lt]
  exact shifted

def shr (shift : Nat) : base_uint WIDTH where
  pn := shrWords x.pn x.pn.length shift
  size := (shrWords_spec x.words shift).length.trans x.size
  words := (shrWords_spec x.words shift).words

theorem value_shr (shift : Nat) : (x.shr shift).value = x.value / 2 ^ shift := by
  have shifted := (shrWords_spec x.words shift).value
  rwa [List.take_length, show 32 * (shift / 32) + shift % 32 = shift by omega] at shifted

def setBit (shift : Nat) : base_uint WIDTH where
  pn := orWord x.pn (shift / 32) (1 <<< (shift % 32))
  size := (length_orWord _ _ _).trans x.size
  words := orWord_lt x.words (by rw [Nat.one_shiftLeft]; exact Nat.pow_lt_pow_right (by decide) (Nat.mod_lt _ (by decide))) _

theorem value_setBit {x : base_uint WIDTH} (inside : shift < 32 * WIDTH) (multiple : 2 ^ (shift + 1) ∣ x.value) :
    (x.setBit shift).value = x.value + 2 ^ shift := by
  have place : 32 * (shift / 32) + shift % 32 = shift := Nat.div_add_mod shift 32
  have word : shift / 32 < x.pn.length := by
    rw [x.size]
    omega
  have set := @ofDigits_orWord_bit x.pn (shift / 32) (shift % 32) 32 x.words word (Nat.mod_lt _ (by decide)) (by rwa [place])
  rw [place] at set
  show Nat.ofDigits (2 ^ 32) (orWord x.pn (shift / 32) (1 <<< (shift % 32))) = _
  rw [Nat.one_shiftLeft]
  exact set

/-- The loop of `operator/=` with its last `rounds` rounds left. -/
def divideLoop : Nat → base_uint WIDTH → base_uint WIDTH → base_uint WIDTH → base_uint WIDTH
  | 0, _, _, q => q
  | shift + 1, num, div, q =>
    if num.compareTo div ≥ 0 then divideLoop shift (num.sub div) (div.shr 1) (q.setBit shift)
    else divideLoop shift num (div.shr 1) q

/-- `operator/=`; nothing where it throws. -/
def divide : Option (base_uint WIDTH) :=
  let num_bits := x.bits
  let div_bits := b.bits
  if div_bits = 0 then none
  else if div_bits > num_bits then some (zero WIDTH)
  else
    let shift := num_bits - div_bits
    some (divideLoop (shift + 1) x (b.shl shift) (zero WIDTH))

/-- What holds before the last `n` rounds of the division of `N` by `D`. -/
structure Dividing (N D n : Nat) (num div q : base_uint WIDTH) : Prop where
  rounds : n ≤ 32 * WIDTH
  divisor : 0 < n → div.value = D * 2 ^ (n - 1)
  left : num.value < D * 2 ^ n
  multiple : 2 ^ n ∣ q.value
  whole : N = D * q.value + num.value

theorem compareTo_nonneg : x.compareTo b ≥ 0 ↔ b.value ≤ x.value := by
  rw [compareTo_eq]
  split
  · omega
  · split <;> omega

theorem Dividing.loop {N D : Nat} {div : base_uint WIDTH} (h : Dividing N D n num div q) :
    (divideLoop n num div q).value = N / D := by
  induction n generalizing num div q with
  | zero =>
    have left := h.left
    rw [Nat.pow_zero, Nat.mul_one] at left
    rw [divideLoop, h.whole, Nat.mul_add_div (Nat.zero_lt_of_lt left), Nat.div_eq_of_lt left, Nat.add_zero]
  | succ n ih =>
    have divisor := h.divisor (Nat.succ_pos n)
    have rounds := h.rounds
    have left := h.left
    rw [Nat.add_sub_cancel] at divisor
    rw [Nat.pow_succ, ← Nat.mul_assoc] at left
    -- the divisor of the next round
    have half : 0 < n → (div.shr 1).value = D * 2 ^ (n - 1) := by
      intro more
      rw [value_shr, divisor, Nat.pow_one, ← Nat.sub_add_cancel more, Nat.pow_succ, ← Nat.mul_assoc, Nat.add_sub_cancel]
      exact Nat.mul_div_cancel _ (by decide)
    rw [divideLoop]
    split
    · next goes =>
      have fits := (compareTo_nonneg num div).mp goes
      have rest := value_sub_of_le fits
      have set := value_setBit (Nat.lt_of_succ_le rounds) h.multiple
      apply ih
      refine ⟨Nat.le_of_succ_le rounds, half, by omega, ?_, ?_⟩
      · rw [set]
        exact Nat.dvd_add ((Nat.pow_dvd_pow 2 (Nat.le_succ n)).trans h.multiple) (Nat.dvd_refl _)
      · rw [h.whole, set, rest, Nat.mul_add]
        omega
    · next stays =>
      have small := mt (compareTo_nonneg num div).mpr stays
      apply ih
      exact ⟨Nat.le_of_succ_le rounds, half, by omega, (Nat.pow_dvd_pow 2 (Nat.le_succ n)).trans h.multiple, h.whole⟩

theorem divide_spec :
    (b.value = 0 → x.divide b = none) ∧ (b.value ≠ 0 → (x.divide b).map value = some (x.value / b.value)) := by
  have xBits := x.bits_eq
  have bBits := b.bits_eq
  unfold divide
  dsimp only
  constructor
  · intro isZero
    rw [if_pos (by rw [bBits, isZero]; exact Nat.size_zero)]
  · intro nonzero
    have positive : 0 < Nat.size b.value := Nat.size_pos.mpr (Nat.pos_of_ne_zero nonzero)
    have top : 2 ^ (Nat.size b.value - 1) ≤ b.value := Nat.lt_size.mp (by omega)
    have below : x.value < 2 ^ Nat.size x.value := Nat.lt_size_self x.value
    rw [if_neg (by omega)]
    split
    · next shorter =>
      have less : x.value < b.value := by
        calc x.value < 2 ^ Nat.size x.value := below
          _ ≤ 2 ^ (Nat.size b.value - 1) := Nat.pow_le_pow_right (by decide) (by omega)
          _ ≤ b.value := top
      rw [Option.map_some, value_zero, Nat.div_eq_of_lt less]
    · next longer =>
      rw [Option.map_some]
      congr 1
      have width : Nat.size x.value ≤ 32 * WIDTH := Nat.size_le.mpr x.value_lt
      have aligned : b.value * 2 ^ (x.bits - b.bits) < 2 ^ (32 * WIDTH) := by
        calc b.value * 2 ^ (x.bits - b.bits) < 2 ^ Nat.size b.value * 2 ^ (x.bits - b.bits) :=
            Nat.mul_lt_mul_of_pos_right (Nat.lt_size_self _) (Nat.two_pow_pos _)
          _ = 2 ^ x.bits := by rw [← Nat.pow_add]; congr 1; omega
          _ ≤ 2 ^ (32 * WIDTH) := Nat.pow_le_pow_right (by decide) (by omega)
      apply Dividing.loop
      refine ⟨by omega, fun _ => ?_, ?_, by rw [value_zero]; exact Nat.dvd_zero _, by rw [value_zero, Nat.mul_zero, Nat.zero_add]⟩
      · rw [value_shl, Nat.mod_eq_of_lt aligned, Nat.add_sub_cancel]
      · calc x.value < 2 ^ Nat.size x.value := below
          _ = 2 ^ (Nat.size b.value - 1) * 2 ^ (x.bits - b.bits + 1) := by rw [← Nat.pow_add]; congr 1; omega
          _ ≤ b.value * 2 ^ (x.bits - b.bits + 1) := Nat.mul_le_mul_right _ top

/-- What an operator with a big integer on its right is given: an object of its own, or a reference to its left side. -/
inductive Operand (WIDTH : Nat) where
  | own (b : base_uint WIDTH)
  | itself

def Operand.value (x : base_uint WIDTH) : Operand WIDTH → Nat
  | own b => b.value
  | itself => x.value

/-- The inner loop of `operator*=` where `b` is the left side, from its word `i` on. -/
def mulAddItself (aj j : Nat) : Nat → Nat → Nat → List Nat → List Nat
  | 0, _, _, pn => pn
  | left + 1, i, carry, pn =>
    let n := (carry + pn.getD (i + j) 0 + aj * pn.getD i 0) % 2 ^ 64
    mulAddItself aj j left (i + 1) (n / 2 ^ 32) (pn.set (i + j) (n % 2 ^ 32))

/-- `operator*=` where `b` is the left side, from the word `j` of `a` on. -/
def mulItselfFrom : Nat → List Nat → List Nat → List Nat
  | _, [], pn => pn
  | j, aj :: a, pn => mulItselfFrom (j + 1) a (mulAddItself aj j (pn.length - j) 0 0 pn)

-- the left side is set to zero before the right one is read
theorem mulAddItself_zeros (aj j left i : Nat) : mulAddItself aj j left i 0 (zero WIDTH).pn = (zero WIDTH).pn := by
  induction left generalizing i with
  | zero => rfl
  | succ left ih =>
    have word : ∀ k, (zero WIDTH).pn.getD k 0 = 0 := getD_zeros WIDTH
    have same : (zero WIDTH).pn.set (i + j) 0 = (zero WIDTH).pn := List.set_replicate_self
    rw [mulAddItself]
    simp only [word, Nat.mul_zero, Nat.add_zero, Nat.zero_mod, Nat.zero_div, same]
    exact ih (i + 1)

theorem mulItselfFrom_zeros : mulItselfFrom j a (zero WIDTH).pn = (zero WIDTH).pn := by
  induction a generalizing j with
  | nil => rfl
  | cons aj a ih =>
    rw [mulItselfFrom, mulAddItself_zeros]
    exact ih (j + 1)

def mulItself : base_uint WIDTH where
  pn := mulItselfFrom 0 x.pn (zero WIDTH).pn
  size := by rw [mulItselfFrom_zeros, (zero WIDTH).size]
  words := by rw [mulItselfFrom_zeros]; exact (zero WIDTH).words

theorem value_mulItself : x.mulItself.value = 0 := by
  have zeros : x.mulItself.pn = (zero WIDTH).pn := mulItselfFrom_zeros x.pn 0
  rw [value, zeros]
  exact value_zero WIDTH

def mulAssign : Operand WIDTH → base_uint WIDTH
  | .own b => x.mul b
  | .itself => x.mulItself

-- every other operator reads a word of its operand before it writes the one at its place, or copies the operand

def Operand.object : Operand WIDTH → base_uint WIDTH
  | own b => b
  | itself => x

theorem Operand.value_object (b : Operand WIDTH) : (b.object x).value = b.value x := by
  cases b <;> rfl

structure Exact (x : base_uint WIDTH) (b : Operand WIDTH) (b32 : UInt32) (shift : Nat) : Prop where
  add : (x.add (b.object x)).value = (x.value + b.value x) % 2 ^ (32 * WIDTH)
  sub : ((x.sub (b.object x)).value : Int) = ((x.value : Int) - b.value x) % 2 ^ (32 * WIDTH)
  mulWord : (x.mulWord b32).value = x.value * b32.toNat % 2 ^ (32 * WIDTH)
  mul : (x.mulAssign b).value = x.value * b.value x % 2 ^ (32 * WIDTH)
  shl : (x.shl shift).value = x.value * 2 ^ shift % 2 ^ (32 * WIDTH)
  shr : (x.shr shift).value = x.value / 2 ^ shift
  divide : b.value x ≠ 0 → (x.divide (b.object x)).map value = some (x.value / b.value x)
  compareTo : x.compareTo (b.object x) = if x.value < b.value x then -1 else if b.value x < x.value then 1 else 0
  bits : x.bits = Nat.size x.value

/-- The operators are exact arithmetic modulo `2 ^ BITS` unless a number is multiplied with itself through a reference to it: the factor is
then cleared before it is read. -/
theorem operators_exact (x : base_uint WIDTH) (b : Operand WIDTH) (b32 : UInt32) (shift : Nat) :
    Exact x b b32 shift ↔ (∃ other, b = .own other) ∨ 2 ^ (32 * WIDTH) ∣ x.value * x.value := by
  have others : (x.mulAssign b).value = x.value * b.value x % 2 ^ (32 * WIDTH) → Exact x b b32 shift := by
    intro product
    refine ⟨?_, ?_, value_mulWord x b32, product, value_shl x shift, value_shr x shift, ?_, ?_, x.bits_eq⟩
    · rw [value_add, b.value_object]
    · rw [value_sub, b.value_object]
    · intro nonzero
      rw [← b.value_object] at nonzero ⊢
      exact (divide_spec x (b.object x)).2 nonzero
    · rw [compareTo_eq, b.value_object]
  cases b with
  | own other => exact iff_of_true (others (value_mul x other)) (Or.inl ⟨other, rfl⟩)
  | itself =>
    constructor
    · intro exact_
      have zeros : 0 = x.value * x.value % 2 ^ (32 * WIDTH) := (value_mulItself x).symm.trans exact_.mul
      exact Or.inr (Nat.dvd_of_mod_eq_zero zeros.symm)
    · intro meets
      rcases meets with ⟨other, isOwn⟩ | square
      · exact nomatch isOwn
      · exact others ((value_mulItself x).trans (Nat.mod_eq_zero_of_dvd square).symm)

theorem one_timesItself : ¬Exact (⟨[1, 0, 0, 0, 0, 0, 0, 0], rfl, by decide⟩ : base_uint 8) .itself 1 1 := by
  intro exact_
  have product := exact_.mul
  exact absurd product (by decide)

end base_uint

end SchillingCoin
