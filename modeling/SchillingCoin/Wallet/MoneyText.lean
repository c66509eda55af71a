import SchillingCoin.Lib.Decimal
import SchillingCoin.Primitives.Hex
import SchillingCoin.Wallet.CoinSelection

/-!
Amounts as texts, after `FormatMoney` and `ParseMoney` in `utilmoneystr.cpp`. A text is a list of characters without its terminating
zero.
-/

namespace SchillingCoin

open Decimal

namespace MoneyText

def isdigit (c : UInt8) : Bool := decide (IsDigit c)

def printed (quotient remainder : Int) : List UInt8 :=
  signed quotient ++ 0x2e :: (List.replicate (8 - (signed remainder).length) 0x30 ++ signed remainder)

/-- `nTrim` from the position `i` on. The positions before the third are behind no point. -/
def trimFrom (str : List UInt8) : Nat → Nat
  | i + 2 => if str.getD (i + 2) 0 = 0x30 && isdigit (str.getD i 0) then trimFrom str (i + 1) + 1 else 0
  | _ => 0

def formatMoney (n : Int) (fPlus : Bool) : List UInt8 :=
  let n_abs := if n > 0 then n else -n
  let str := printed (n_abs.tdiv COIN) (n_abs.tmod COIN)
  let nTrim := trimFrom str (str.length - 1)
  let str := str.take (str.length - nTrim)
  if n < 0 then 0x2d :: str else if fPlus && n > 0 then 0x2b :: str else str

/-- The digits after the point: `nUnits`, and the text that is left. -/
def parseFraction (nMult nUnits : Int) : List UInt8 → Int × List UInt8
  | [] => (nUnits, [])
  | c :: p => if isdigit c && nMult > 0 then parseFraction (nMult.tdiv 10) (nUnits + nMult * (c.toNat - 0x30)) p else (nUnits, c :: p)

/-- The first loop: `strWhole`, `nUnits` and the text that is left. -/
def parseWhole (strWhole : List UInt8) : List UInt8 → Option (List UInt8 × Int × List UInt8)
  | [] => some (strWhole, 0, [])
  | c :: p =>
    if c = 0x2e then some (strWhole, parseFraction (CENT * 10) 0 p)
    else if isspace c then some (strWhole, 0, c :: p)
    else if !isdigit c then none
    else parseWhole (strWhole ++ [c]) p

/-- `atoi64` of a text of digits. A number that does not fit becomes the largest one. -/
def atoi64 (digits : List UInt8) : Int := min (value digits) (2 ^ 63 - 1)

def parseMoney (pszIn : List UInt8) (nRet : Int) : Bool × Int :=
  match parseWhole [] (pszIn.dropWhile isspace) with
  | none => (false, nRet)
  | some (strWhole, nUnits, p) =>
    if p.any fun c => !isspace c then (false, nRet)
    else if strWhole.length > 10 then (false, nRet)
    else if nUnits < 0 || nUnits > COIN then (false, nRet)
    else (true, (atoi64 strWhole * COIN + nUnits).bmod (2 ^ 64))

/-- White space, at most ten digits, a point and at most eight digits or neither, and white space. -/
structure IsMoney (text whole fraction : List UInt8) : Prop where
  parts : ∃ front back, (∀ c ∈ front, isspace c = true) ∧ (∀ c ∈ back, isspace c = true) ∧
    (text = front ++ whole ++ back ∧ fraction = [] ∨ text = front ++ whole ++ 0x2e :: fraction ++ back)
  whole_digits : ∀ c ∈ whole, IsDigit c
  fraction_digits : ∀ c ∈ fraction, IsDigit c
  whole_length : whole.length ≤ 10
  fraction_length : fraction.length ≤ 8

def amount (whole fraction : List UInt8) : Int := value whole * COIN + value fraction * 10 ^ (8 - fraction.length)

theorem isdigit_iff (c : UInt8) : isdigit c = true ↔ IsDigit c := decide_eq_true_iff

variable {c : UInt8} {back fraction rest whole text : List UInt8}

theorem isDigit_toNat (digit : IsDigit c) : 48 ≤ c.toNat ∧ c.toNat ≤ 57 :=
  ⟨UInt8.le_iff_toNat_le.mp digit.1, UInt8.le_iff_toNat_le.mp digit.2⟩

theorem digit_not_space (digit : IsDigit c) : isspace c = false := by
  obtain ⟨low, _⟩ := isDigit_toNat digit
  have other : c ≠ 32 := fun same => by
    rw [same] at low
    exact absurd low (by decide)
  have high : ¬c ≤ 13 := fun le => by
    have := UInt8.le_iff_toNat_le.mp le
    simp at this
    omega
  simp [isspace, other, high]

theorem digit_not_point (digit : IsDigit c) : c ≠ 0x2e := by
  intro same
  rw [same] at digit
  exact absurd digit (by decide)

def NoDigitHead (rest : List UInt8) : Prop := ∀ c ∈ rest.head?, ¬IsDigit c

theorem noDigitHead_spaces (spaces : ∀ c ∈ back, isspace c = true) : NoDigitHead back := by
  intro c head digit
  have space := spaces c (List.mem_of_mem_head? head)
  rw [digit_not_space digit] at space
  exact Bool.noConfusion space

theorem parseFraction_digits (digits : ∀ c ∈ fraction, IsDigit c) (few : fraction.length ≤ k) (stop : NoDigitHead rest)
    (nUnits : Int) :
    parseFraction (10 ^ k / 10 : Nat) nUnits (fraction ++ rest) = (nUnits + value fraction * 10 ^ (k - fraction.length), rest) := by
  induction fraction generalizing k nUnits with
  | nil =>
    have none_ : (nUnits + (value [] : Nat) * 10 ^ (k - ([] : List UInt8).length), rest) = (nUnits, rest) := by simp [value]
    rw [none_, List.nil_append]
    cases rest with
    | nil => rfl
    | cons c rest =>
      have other : isdigit c = false := Bool.eq_false_iff.mpr fun digit => stop c rfl ((isdigit_iff c).mp digit)
      rw [parseFraction, other]
      rfl
  | cons c fraction ih =>
    have digit := digits c List.mem_cons_self
    obtain ⟨low, high⟩ := isDigit_toNat digit
    rw [List.length_cons] at few
    obtain ⟨k, rfl⟩ : ∃ k', k = k' + 1 := ⟨k - 1, by omega⟩
    have mult : 10 ^ (k + 1) / 10 = 10 ^ k := by rw [Nat.pow_succ, Nat.mul_div_cancel _ (by omega)]
    have positive : (0 : Int) < (10 ^ k : Nat) := by positivity
    have next : ((10 ^ k : Nat) : Int).tdiv 10 = (10 ^ k / 10 : Nat) := by
      rw [Int.tdiv_eq_ediv_of_nonneg (by omega)]
      rfl
    rw [List.cons_append, parseFraction, mult, (isdigit_iff c).mpr digit, next]
    simp only [gt_iff_lt, positive, decide_true, Bool.and_true, if_true]
    rw [ih (fun d member => digits d (List.mem_cons_of_mem _ member)) (by omega)]
    congr 1
    have left : k + 1 - (c :: fraction).length = k - fraction.length := by
      rw [List.length_cons]
      omega
    have whole : 10 ^ fraction.length * 10 ^ (k - fraction.length) = 10 ^ k := by
      rw [← Nat.pow_add]
      congr 1
      omega
    have units : ((c.toNat - 48 : Nat) : Int) = c.toNat - 0x30 := by omega
    rw [left, value_cons, ← units, ← whole]
    push_cast
    ring

theorem parseWhole_digits (digits : ∀ c ∈ whole, IsDigit c) (strWhole rest : List UInt8) :
    parseWhole strWhole (whole ++ rest) = parseWhole (strWhole ++ whole) rest := by
  induction whole generalizing strWhole with
  | nil => rw [List.nil_append, List.append_nil]
  | cons c whole ih =>
    have digit := digits c List.mem_cons_self
    rw [List.cons_append, parseWhole, if_neg (digit_not_point digit), digit_not_space digit, (isdigit_iff c).mpr digit]
    simp only [Bool.false_eq_true, Bool.not_true, if_false]
    rw [ih fun d member => digits d (List.mem_cons_of_mem _ member), List.append_assoc, List.singleton_append]

theorem parseWhole_space (spaces : ∀ c ∈ back, isspace c = true) (strWhole : List UInt8) :
    parseWhole strWhole back = some (strWhole, 0, back) := by
  cases back with
  | nil => rfl
  | cons c back =>
    have space := spaces c List.mem_cons_self
    have other : c ≠ 0x2e := fun same => by
      rw [same] at space
      exact absurd space (by decide)
    rw [parseWhole, if_neg other, space, if_pos rfl]

theorem parseWhole_point (wholeDigits : ∀ c ∈ whole, IsDigit c) (digits : ∀ c ∈ fraction, IsDigit c)
    (few : fraction.length ≤ 8) (spaces : ∀ c ∈ back, isspace c = true) :
    parseWhole [] (whole ++ 0x2e :: fraction ++ back) = some (whole, (value fraction : Int) * 10 ^ (8 - fraction.length), back) := by
  have mult : CENT * 10 = (10 ^ 8 / 10 : Nat) := rfl
  rw [List.append_assoc, parseWhole_digits wholeDigits, List.nil_append, List.cons_append, parseWhole, if_pos rfl, mult,
    parseFraction_digits digits few (noDigitHead_spaces spaces), Int.zero_add]

theorem parseWhole_isMoney (money : IsMoney text whole fraction) :
    ∃ back, (∀ c ∈ back, isspace c = true) ∧
      parseWhole [] (text.dropWhile isspace) = some (whole, (value fraction : Int) * 10 ^ (8 - fraction.length), back) := by
  obtain ⟨front, back, frontSpaces, spaces, form⟩ := money.parts
  have wholeDigits := money.whole_digits
  rcases form with ⟨isText, isNil⟩ | isText
  · have noUnits : ((value fraction : Nat) : Int) * 10 ^ (8 - fraction.length) = 0 := by rw [isNil]; simp [value]
    rw [isText, List.append_assoc, List.dropWhile_append_of_pos frontSpaces, noUnits]
    cases whole with
    | nil =>
      -- the text is white space
      rw [List.nil_append, List.dropWhile_eq_nil_iff.mpr spaces]
      exact ⟨[], (fun _ member => by cases member), rfl⟩
    | cons c whole =>
      have digit := wholeDigits c List.mem_cons_self
      rw [List.cons_append, List.dropWhile_cons_of_neg (by rw [digit_not_space digit]; decide), ← List.cons_append,
        parseWhole_digits wholeDigits, List.nil_append, parseWhole_space spaces]
      exact ⟨back, spaces, rfl⟩
  · have stays : (whole ++ 0x2e :: fraction ++ back).dropWhile isspace = whole ++ 0x2e :: fraction ++ back := by
      cases whole with
      | nil => exact List.dropWhile_cons_of_neg (by decide)
      | cons c whole => exact List.dropWhile_cons_of_neg (by rw [digit_not_space (wholeDigits c List.mem_cons_self)]; decide)
    have split : front ++ whole ++ 0x2e :: fraction ++ back = front ++ (whole ++ 0x2e :: fraction ++ back) := by simp
    rw [isText, split, List.dropWhile_append_of_pos frontSpaces, stays,
      parseWhole_point wholeDigits money.fraction_digits money.fraction_length spaces]
    exact ⟨back, spaces, rfl⟩

theorem amount_bounds (money : IsMoney text whole fraction) :
    ((value whole : Nat) : Int) < 10 ^ 10 ∧ 0 ≤ ((value fraction : Nat) : Int) * 10 ^ (8 - fraction.length) ∧
    ((value fraction : Nat) : Int) * 10 ^ (8 - fraction.length) < COIN := by
  have wholeBelow := value_lt money.whole_digits
  have larger : 10 ^ whole.length ≤ 10 ^ 10 := Nat.pow_le_pow_right (by omega) money.whole_length
  have fractionBelow := value_lt money.fraction_digits
  have power : 10 ^ fraction.length * 10 ^ (8 - fraction.length) = 10 ^ 8 := by
    have few := money.fraction_length
    rw [← Nat.pow_add]
    congr 1
    omega
  have below : value fraction * 10 ^ (8 - fraction.length) < 10 ^ 8 := by
    rw [← power]
    exact Nat.mul_lt_mul_of_pos_right fractionBelow (by positivity)
  refine ⟨by omega, by positivity, ?_⟩
  have coin : COIN = ((10 ^ 8 : Nat) : Int) := by norm_num [COIN]
  rw [coin]
  exact_mod_cast below

theorem parseMoney_isMoney (money : IsMoney text whole fraction) (nRet : Int) :
    parseMoney text nRet = (true, amount whole fraction) ∧ 0 ≤ amount whole fraction ∧ amount whole fraction < 2 ^ 63 := by
  obtain ⟨back, spaces, parsed⟩ := parseWhole_isMoney money
  obtain ⟨wholeBelow, nonneg, below⟩ := amount_bounds money
  have coin : COIN = 100000000 := rfl
  unfold amount
  generalize ((value fraction : Nat) : Int) * 10 ^ (8 - fraction.length) = nUnits at parsed nonneg below ⊢
  have read : atoi64 whole = value whole := by
    unfold atoi64
    omega
  have bounds : 0 ≤ (value whole : Int) * COIN + nUnits ∧ (value whole : Int) * COIN + nUnits < 2 ^ 63 := by
    rw [coin] at below ⊢
    omega
  refine ⟨?_, bounds⟩
  have rest : (back.any fun c => !isspace c) = false := by
    rw [List.any_eq_false]
    intro c member
    rw [spaces c member]
    decide
  unfold parseMoney
  rw [parsed]
  dsimp only
  have units : (decide (nUnits < 0) || decide (nUnits > COIN)) = false := by
    rw [Bool.or_eq_false_iff, decide_eq_false_iff_not, decide_eq_false_iff_not]
    omega
  rw [rest, if_neg Bool.false_ne_true, if_neg (Nat.not_lt.mpr money.whole_length), units, if_neg Bool.false_ne_true, read]
  exact congrArg (Prod.mk true) (Int.bmod_eq_of_le (by omega) (by omega))

theorem parseFraction_sound (parsed : parseFraction (10 ^ k / 10 : Nat) nUnits p = (nUnits', rest)) :
    ∃ fraction, p = fraction ++ rest ∧ (∀ c ∈ fraction, IsDigit c) ∧ fraction.length ≤ k := by
  induction p generalizing k nUnits with
  | nil =>
    obtain ⟨_, rfl⟩ := Prod.mk.inj parsed
    exact ⟨[], rfl, nofun, Nat.zero_le _⟩
  | cons c p ih =>
    rw [parseFraction] at parsed
    split at parsed
    · next goes =>
      obtain ⟨digit, more⟩ := (Bool.and_eq_true _ _).mp goes
      have positive := of_decide_eq_true more
      have some_ : 0 < k := by
        rcases Nat.eq_zero_or_pos k with isZero | some_
        · rw [isZero] at positive
          exact absurd positive (by decide)
        · exact some_
      obtain ⟨k, rfl⟩ : ∃ k', k = k' + 1 := ⟨k - 1, by omega⟩
      have mult : 10 ^ (k + 1) / 10 = 10 ^ k := by rw [Nat.pow_succ, Nat.mul_div_cancel _ (by omega)]
      have next : ((10 ^ k : Nat) : Int).tdiv 10 = (10 ^ k / 10 : Nat) := by
        rw [Int.tdiv_eq_ediv_of_nonneg (by omega)]
        rfl
      rw [mult, next] at parsed
      obtain ⟨fraction, isText, digits, few⟩ := ih parsed
      refine ⟨c :: fraction, by rw [isText, List.cons_append], ?_, by rw [List.length_cons]; omega⟩
      intro d member
      rcases List.mem_cons.mp member with isFirst | later
      · rw [isFirst]
        exact (isdigit_iff c).mp digit
      · exact digits d later
    · obtain ⟨_, rfl⟩ := Prod.mk.inj parsed
      exact ⟨[], rfl, nofun, Nat.zero_le _⟩

theorem parseWhole_sound (parsed : parseWhole strWhole p = some (strWhole', nUnits, rest)) :
    ∃ whole, (∀ c ∈ whole, IsDigit c) ∧ strWhole' = strWhole ++ whole ∧
      (p = whole ++ rest ∨ ∃ fraction, p = whole ++ 0x2e :: fraction ++ rest ∧ (∀ c ∈ fraction, IsDigit c) ∧ fraction.length ≤ 8) := by
  induction p generalizing strWhole with
  | nil =>
    cases parsed
    exact ⟨[], nofun, by rw [List.append_nil], Or.inl rfl⟩
  | cons c p ih =>
    rw [parseWhole] at parsed
    split at parsed
    · next point =>
      obtain ⟨isWhole, units⟩ := Prod.mk.inj (Option.some.inj parsed)
      obtain ⟨fraction, isText, digits, few⟩ := parseFraction_sound (k := 8) units
      exact ⟨[], nofun, by rw [List.append_nil, isWhole], Or.inr ⟨fraction, by rw [point, isText]; rfl, digits, few⟩⟩
    · split at parsed
      · cases parsed
        exact ⟨[], nofun, by rw [List.append_nil], Or.inl rfl⟩
      · split at parsed
        · exact nomatch parsed
        · next digit =>
          obtain ⟨whole, digits, isWhole, form⟩ := ih parsed
          refine ⟨c :: whole, ?_, by rw [isWhole, List.append_assoc, List.singleton_append], ?_⟩
          · intro d member
            rcases List.mem_cons.mp member with isFirst | later
            · rw [isFirst]
              exact (isdigit_iff c).mp (by simpa using digit)
            · exact digits d later
          · rcases form with isText | ⟨fraction, isText, fractionDigits, few⟩
            · exact Or.inl (by rw [isText, List.cons_append])
            · exact Or.inr ⟨fraction, by rw [isText]; rfl, fractionDigits, few⟩

theorem parseMoney_sound (text : List UInt8) (nRet : Int) :
    parseMoney text nRet = (false, nRet) ∨ (parseMoney text nRet).1 = true ∧ ∃ whole fraction, IsMoney text whole fraction := by
  unfold parseMoney
  split
  · exact Or.inl rfl
  · next strWhole nUnits p parsed =>
    split
    · exact Or.inl rfl
    · next rest =>
      split
      · exact Or.inl rfl
      · next few =>
        split
        · exact Or.inl rfl
        · refine Or.inr ⟨rfl, ?_⟩
          obtain ⟨whole, digits, isWhole, form⟩ := parseWhole_sound parsed
          rw [List.nil_append] at isWhole
          rw [isWhole, Nat.not_lt] at few
          have spaces : ∀ c ∈ p, isspace c = true := by
            intro c member
            by_contra other
            exact rest (List.any_eq_true.mpr ⟨c, member, by rw [Bool.eq_false_iff.mpr other]; rfl⟩)
          have front : ∀ c ∈ text.takeWhile isspace, isspace c = true := fun c member => List.mem_takeWhile_imp member
          have whole_ := List.takeWhile_append_dropWhile (p := isspace) (l := text)
          rcases form with isText | ⟨fraction, isText, fractionDigits, fewer⟩
          · exact ⟨whole, [], ⟨⟨_, p, front, spaces, Or.inl ⟨by rw [List.append_assoc, ← isText, whole_], rfl⟩⟩, digits, nofun, few, Nat.zero_le _⟩⟩
          · refine ⟨whole, fraction, ⟨⟨_, p, front, spaces, Or.inr ?_⟩, digits, fractionDigits, few, fewer⟩⟩
            conv_lhs => rw [← whole_, isText]
            simp

theorem trimFrom_le (stop : isdigit (str.getD point 0) = false) (behind : point + 2 ≤ i) :
    trimFrom str i + (point + 2) ≤ i := by
  induction i with
  | zero => omega
  | succ i ih =>
    cases i with
    | zero => omega
    | succ i =>
      rw [trimFrom]
      by_cases isLast : i = point
      · rw [isLast, stop, Bool.and_false, if_neg Bool.false_ne_true]
        omega
      · have rest := ih (by omega)
        split <;> omega

theorem trimFrom_zeros (str : List UInt8) (i : Nat) : ∀ j, j < trimFrom str i → str.getD (i - j) 0 = 0x30 := by
  induction i with
  | zero => exact fun j less => absurd less (Nat.not_lt_zero j)
  | succ i ih =>
    cases i with
    | zero => exact fun j less => absurd less (Nat.not_lt_zero j)
    | succ i =>
      intro j less
      rw [trimFrom] at less
      split at less
      · next zero =>
        cases j with
        | zero => exact of_decide_eq_true ((Bool.and_eq_true _ _).mp zero).1
        | succ j =>
          have before := ih j (by omega)
          rwa [show i + 1 + 1 - (j + 1) = i + 1 - j by omega]
      · exact absurd less (Nat.not_lt_zero j)

theorem take_append_trimmed (str : List UInt8) (inside : trimFrom str (str.length - 1) ≤ str.length - 1) :
    str.take (str.length - trimFrom str (str.length - 1)) ++ List.replicate (trimFrom str (str.length - 1)) 0x30 = str := by
  have zeros := trimFrom_zeros str (str.length - 1)
  generalize trimFrom str (str.length - 1) = nTrim at inside zeros ⊢
  have dropped : str.drop (str.length - nTrim) = List.replicate nTrim 0x30 := by
    apply List.eq_replicate_iff.mpr
    refine ⟨by rw [List.length_drop]; omega, ?_⟩
    intro c member
    obtain ⟨k, less, isC⟩ := List.mem_iff_getElem.mp member
    rw [List.length_drop] at less
    have zero := zeros (nTrim - 1 - k) (by omega)
    rw [show str.length - 1 - (nTrim - 1 - k) = str.length - nTrim + k by omega, List.getD_eq_getElem?_getD,
      List.getElem?_eq_getElem (by omega), Option.getD_some] at zero
    rw [← isC, List.getElem_drop, zero]
  rw [← dropped, List.take_append_drop]

def places (r : Nat) : List UInt8 := List.replicate (8 - (numeral r).length) 0x30 ++ numeral r

theorem places_spec (small : r < 10 ^ 8) : (places r).length = 8 ∧ (∀ c ∈ places r, IsDigit c) ∧ value (places r) = r := by
  have few : (numeral r).length ≤ 8 := length_numeral_le small
  refine ⟨?_, ?_, ?_⟩
  · rw [places, List.length_append, List.length_replicate]
    omega
  · intro c member
    rcases List.mem_append.mp member with zero | digit
    · rw [List.eq_of_mem_replicate zero]
      decide
    · exact numeral_isDigit digit
  · have zeros : value (List.replicate (8 - (numeral r).length) 0x30) = 0 := value_zeros _
    rw [places, value_append, zeros, value_numeral, Nat.zero_mul, Nat.zero_add]

theorem printed_eq (n : Nat) : printed ((n : Int).tdiv COIN) ((n : Int).tmod COIN) = numeral (n / 10 ^ 8) ++ 0x2e :: places (n % 10 ^ 8) := by
  have coin : COIN = ((10 ^ 8 : Nat) : Int) := by norm_num [COIN]
  have quotient : (n : Int).tdiv COIN = (n / 10 ^ 8 : Nat) := by
    rw [coin]
    exact (Int.ofNat_tdiv n (10 ^ 8)).symm
  have remainder : (n : Int).tmod COIN = (n % 10 ^ 8 : Nat) := by
    rw [coin]
    exact (Int.ofNat_tmod n (10 ^ 8)).symm
  rw [quotient, remainder]
  rfl

theorem formatMoney_isMoney {n : Nat} (small : n < 10 ^ 18) :
    ∃ whole fraction, IsMoney (formatMoney n false) whole fraction ∧ amount whole fraction = n := by
  have whole : n / 10 ^ 8 < 10 ^ 10 := by omega
  obtain ⟨eight, digits, isRest⟩ := places_spec (r := n % 10 ^ 8) (Nat.mod_lt _ (by positivity))
  have text : formatMoney n false = (numeral (n / 10 ^ 8) ++ 0x2e :: places (n % 10 ^ 8)).take
      ((numeral (n / 10 ^ 8) ++ 0x2e :: places (n % 10 ^ 8)).length -
        trimFrom (numeral (n / 10 ^ 8) ++ 0x2e :: places (n % 10 ^ 8)) ((numeral (n / 10 ^ 8) ++ 0x2e :: places (n % 10 ^ 8)).length - 1)) := by
    have nonneg : (if (n : Int) > 0 then (n : Int) else -n) = n := by split <;> omega
    unfold formatMoney
    rw [nonneg]
    dsimp only
    rw [printed_eq, if_neg (by omega), Bool.false_and, if_neg Bool.false_ne_true]
  have length : (numeral (n / 10 ^ 8) ++ 0x2e :: places (n % 10 ^ 8)).length = (numeral (n / 10 ^ 8)).length + 9 := by
    rw [List.length_append, List.length_cons, eight]
  have stop : isdigit ((numeral (n / 10 ^ 8) ++ 0x2e :: places (n % 10 ^ 8)).getD (numeral (n / 10 ^ 8)).length 0) = false := by
    simp [isdigit, IsDigit]
  have bound := trimFrom_le stop (i := (numeral (n / 10 ^ 8) ++ 0x2e :: places (n % 10 ^ 8)).length - 1) (by omega)
  have whole_ := take_append_trimmed (numeral (n / 10 ^ 8) ++ 0x2e :: places (n % 10 ^ 8)) (by omega)
  generalize trimFrom (numeral (n / 10 ^ 8) ++ 0x2e :: places (n % 10 ^ 8)) _ = nTrim at text bound whole_
  rw [length] at text bound whole_
  have split : (numeral (n / 10 ^ 8) ++ 0x2e :: places (n % 10 ^ 8)).take ((numeral (n / 10 ^ 8)).length + 9 - nTrim) =
      numeral (n / 10 ^ 8) ++ 0x2e :: (places (n % 10 ^ 8)).take (8 - nTrim) := by
    rw [show (numeral (n / 10 ^ 8)).length + 9 - nTrim = (numeral (n / 10 ^ 8)).length + (8 - nTrim + 1) by omega, List.take_length_add_append,
      List.take_succ_cons]
  rw [split] at text whole_
  rw [List.append_assoc, List.cons_append] at whole_
  have fraction := (List.cons.inj (List.append_cancel_left whole_)).2
  have few : ((places (n % 10 ^ 8)).take (8 - nTrim)).length = 8 - nTrim := by
    rw [List.length_take]
    omega
  refine ⟨numeral (n / 10 ^ 8), (places (n % 10 ^ 8)).take (8 - nTrim), ⟨⟨[], [], (fun _ member => by cases member), (fun _ member => by cases member), Or.inr ?_⟩, ?_, ?_, ?_, ?_⟩, ?_⟩
  · rw [text]
    simp
  · exact fun c member => numeral_isDigit member
  · exact fun c member => digits c (List.mem_of_mem_take member)
  · exact length_numeral_le whole
  · omega
  · have zeros : value (List.replicate nTrim 0x30) = 0 := value_zeros nTrim
    have value_ : value ((places (n % 10 ^ 8)).take (8 - nTrim)) * 10 ^ nTrim = n % 10 ^ 8 := by
      rw [← fraction, value_append, zeros, List.length_replicate, Nat.add_zero] at isRest
      exact isRest
    have units : ((value ((places (n % 10 ^ 8)).take (8 - nTrim)) : Nat) : Int) * 10 ^ nTrim = (n % 10 ^ 8 : Nat) := by exact_mod_cast value_
    have left : 8 - (8 - nTrim) = nTrim := by omega
    have coin : COIN = 100000000 := rfl
    rw [amount, few, left, units, value_numeral, coin]
    omega

/-- An amount below `10 ^ 18` is parsed back from its text; the texts of the form are those that are accepted, and give the amount of their
digits, which fits into 63 bits; a text that is refused leaves `nRet`. -/
theorem parseMoney_exact :
    (∀ (n nRet : Int), 0 ≤ n → n < 10 ^ 18 → parseMoney (formatMoney n false) nRet = (true, n)) ∧
    (∀ text nRet, (parseMoney text nRet).1 = true ↔ ∃ whole fraction, IsMoney text whole fraction) ∧
    (∀ text whole fraction nRet, IsMoney text whole fraction → (parseMoney text nRet).2 = amount whole fraction ∧
      0 ≤ amount whole fraction ∧ amount whole fraction < 2 ^ 63) ∧
    ∀ text nRet, (parseMoney text nRet).1 = false → (parseMoney text nRet).2 = nRet := by
  refine ⟨?_, ?_, ?_, ?_⟩
  · intro n nRet nonneg small
    obtain ⟨m, rfl⟩ := Int.eq_ofNat_of_zero_le nonneg
    obtain ⟨whole, fraction, money, isAmount⟩ := formatMoney_isMoney (n := m) (by omega)
    rw [(parseMoney_isMoney money nRet).1, isAmount]
  · intro text nRet
    constructor
    · intro accepted
      rcases parseMoney_sound text nRet with refused | ⟨_, form⟩
      · rw [refused] at accepted
        exact nomatch accepted
      · exact form
    · intro ⟨whole, fraction, money⟩
      rw [(parseMoney_isMoney money nRet).1]
  · intro text whole fraction nRet money
    obtain ⟨parsed, bounds⟩ := parseMoney_isMoney money nRet
    exact ⟨by rw [parsed], bounds⟩
  · intro text nRet refused
    rcases parseMoney_sound text nRet with unchanged | ⟨accepted, _⟩
    · rw [unchanged]
    · rw [accepted] at refused
      exact nomatch refused

theorem parseMoney_exact_tenth : parseMoney (formatMoney 10000000 false) 7 = (true, 10000000) :=
  parseMoney_exact.1 10000000 7 (by decide) (by decide)

end MoneyText

end SchillingCoin
