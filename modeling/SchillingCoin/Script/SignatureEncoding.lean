import SchillingCoin.Script.Interpreter
import SchillingCoin.Script.ScriptNum

/-!
The vectors that `IsValidSignatureEncoding` accepts: two integers and a hash type, in one form.
-/

namespace SchillingCoin

open Codec

variable (sig : valtype) (i : Nat)

/-- A test of `sig[i]` that refuses, before the tests after it. Nothing comes back where the position is outside the vector. -/
def testAt (bad : UInt8 → Bool) (next : Option Bool) : Option Bool :=
  sig[i]?.bind fun b => if bad b then some false else next

def testPadding (len : Nat) (next : Option Bool) : Option Bool :=
  if len > 1 then sig[i]?.bind fun b => if b = 0x00 then testAt sig (i + 1) (fun c => c &&& 0x80 == 0) next else next
  else next

/-- `IsValidSignatureEncoding` with its reads, in the order of the source. -/
def readSignatureEncoding : Option Bool :=
  if sig.length < 9 then some false
  else if sig.length > 73 then some false
  else testAt sig 0 (· != 0x30) <| testAt sig 1 (fun b => b.toNat != sig.length - 3) <|
    sig[3]?.bind fun r =>
      let lenR := r.toNat
      if 5 + lenR ≥ sig.length then some false
      else sig[5 + lenR]?.bind fun s =>
        let lenS := s.toNat
        if lenR + lenS + 7 ≠ sig.length then some false
        else testAt sig 2 (· != 0x02) <|
          if lenR = 0 then some false
          else testAt sig 4 (fun b => b &&& 0x80 != 0) <| testPadding sig 4 lenR <| testAt sig (lenR + 4) (· != 0x02) <|
            if lenS = 0 then some false
            else testAt sig (lenR + 6) (fun b => b &&& 0x80 != 0) <| testPadding sig (lenR + 6) lenS (some true)

section

variable {sig : valtype} {next : Option Bool} {passed : Bool}

theorem getElem?_inside {i : Nat} (inside : i < sig.length) : sig[i]? = some (sig.getD i 0) := by
  rw [List.getD_eq_getElem?_getD, List.getElem?_eq_getElem inside, Option.getD_some]

theorem refused_or {bad : Prop} [Decidable bad] (rest : ¬bad → next = some passed) :
    (if bad then some false else next) = some (!decide bad && passed) := by
  by_cases isBad : bad
  · rw [if_pos isBad, decide_eq_true isBad]
    rfl
  · rw [if_neg isBad, decide_eq_false isBad, rest isBad]
    rfl

theorem testAt_inside {i : Nat} {bad : UInt8 → Bool} (inside : i < sig.length) (rest : next = some passed) :
    testAt sig i bad next = some (!bad (sig.getD i 0) && passed) := by
  rw [testAt, getElem?_inside inside, Option.bind_some, rest]
  cases bad (sig.getD i 0) <;> rfl

theorem testPadding_inside {i len : Nat} (inside : i + 1 < sig.length) (rest : next = some passed) :
    testPadding sig i len next = some (!(decide (len > 1) && sig.getD i 0 == 0x00 && sig.getD (i + 1) 0 &&& 0x80 == 0) && passed) := by
  unfold testPadding
  by_cases long : len > 1
  · rw [if_pos long, getElem?_inside (by omega), Option.bind_some, testAt_inside inside rest, rest, decide_eq_true long]
    by_cases isNull : sig.getD i 0 = 0x00
    · rw [if_pos isNull, isNull]
      rfl
    · rw [if_neg isNull, beq_false_of_ne isNull]
      rfl
  · rw [if_neg long, decide_eq_false long, rest]
    rfl

end

theorem readSignatureEncoding_eq : readSignatureEncoding sig = some (isValidSignatureEncoding sig) := by
  unfold readSignatureEncoding isValidSignatureEncoding
  dsimp only
  by_cases short : sig.length < 9
  · rw [if_pos short, decide_eq_true short]
    rfl
  rw [if_neg short, decide_eq_false short]
  by_cases long : sig.length > 73
  · rw [if_pos long, decide_eq_true long]
    rfl
  rw [if_neg long, decide_eq_false long, getElem?_inside (i := 3) (by omega), Option.bind_some]
  generalize (sig.getD 3 0).toNat = lenR
  -- the two lengths are checked before the positions that they give
  have rest : ∀ lenS, 5 + lenR < sig.length → lenR + lenS + 7 = sig.length →
      (testAt sig 2 (· != 0x02) <|
        if lenR = 0 then some false
        else testAt sig 4 (fun b => b &&& 0x80 != 0) <| testPadding sig 4 lenR <| testAt sig (lenR + 4) (· != 0x02) <|
          if lenS = 0 then some false
          else testAt sig (lenR + 6) (fun b => b &&& 0x80 != 0) <| testPadding sig (lenR + 6) lenS (some true)) = some _ :=
    fun lenS inside total => testAt_inside (by omega) (refused_or fun someR => testAt_inside (by omega) (testPadding_inside (by omega)
      (testAt_inside (by omega) (refused_or fun someS => testAt_inside (by omega) (testPadding_inside (by omega) rfl)))))
  have lengths : (if 5 + lenR ≥ sig.length then some false
      else sig[5 + lenR]?.bind fun s =>
        if lenR + s.toNat + 7 ≠ sig.length then some false
        else testAt sig 2 (· != 0x02) <|
          if lenR = 0 then some false
          else testAt sig 4 (fun b => b &&& 0x80 != 0) <| testPadding sig 4 lenR <| testAt sig (lenR + 4) (· != 0x02) <|
            if s.toNat = 0 then some false
            else testAt sig (lenR + 6) (fun b => b &&& 0x80 != 0) <| testPadding sig (lenR + 6) s.toNat (some true)) = some _ :=
    refused_or fun outside => by
      rw [getElem?_inside (Nat.lt_of_not_ge outside), Option.bind_some]
      exact refused_or fun total => rest _ (Nat.lt_of_not_ge outside) (Decidable.not_not.mp total)
  rw [testAt_inside (by omega) (testAt_inside (by omega) lengths)]
  have order : decide (5 + lenR < sig.length) = !decide (5 + lenR ≥ sig.length) := by
    rw [← decide_not]
    exact decide_eq_decide.mpr Nat.not_le.symm
  rw [order]
  simp [bne, Bool.and_assoc, beq_eq_decide]

/-- The contents of an integer that is not negative, in the fewest bytes: its first byte has a clear top bit, and is a null byte before
others only where the next has its top bit set. Zero is a null byte alone. -/
def ShortestInteger : List UInt8 → Prop
  | [] => False
  | b :: rest => b.toNat < 128 ∧ ∀ c ∈ rest.head?, b = 0 → 128 ≤ c.toNat

theorem ShortestInteger.length_pos {bytes : List UInt8} (shortest : ShortestInteger bytes) : 0 < bytes.length := by
  cases bytes with
  | nil => exact shortest.elim
  | cons b rest => exact Nat.succ_pos _

def integerOf (bytes : List UInt8) : Nat := leValue bytes.reverse

structure DerSignature where
  R : List UInt8
  S : List UInt8
  hashtype : UInt8
  shortestR : ShortestInteger R
  shortestS : ShortestInteger S
  size : R.length + S.length + 7 ≤ 73

namespace DerSignature

def bytes (d : DerSignature) : valtype :=
  [0x30, UInt8.ofNat (d.R.length + d.S.length + 4), 0x02, UInt8.ofNat d.R.length] ++ d.R ++ [0x02, UInt8.ofNat d.S.length] ++ d.S ++
    [d.hashtype]

theorem length_bytes (d : DerSignature) : d.bytes.length = d.R.length + d.S.length + 7 := by
  simp only [bytes, List.length_append, List.length_cons, List.length_nil]
  omega

end DerSignature

def integerTests (len : Nat) : Bool :=
  len != 0 && sig.getD i 0 &&& 0x80 == 0 && !(decide (len > 1) && sig.getD i 0 == 0x00 && sig.getD (i + 1) 0 &&& 0x80 == 0)

theorem topClear_iff (b : UInt8) : (b &&& 0x80 == 0) = true ↔ b.toNat < 128 := by
  rw [beq_iff_eq, ← Decidable.not_not (p := b &&& 0x80 = 0)]
  exact (not_congr (CScriptNum.highBit_iff b)).trans Nat.not_le

theorem integerTests_iff (front bytes back : List UInt8) :
    integerTests (front ++ bytes ++ back) front.length bytes.length = true ↔ ShortestInteger bytes := by
  match bytes with
  | [] => simp [integerTests, ShortestInteger]
  | [b] =>
    have first : (front ++ [b] ++ back).getD front.length 0 = b := by simp
    rw [integerTests, first]
    simp [ShortestInteger, ← topClear_iff]
  | b :: c :: rest =>
    have first : (front ++ b :: c :: rest ++ back).getD front.length 0 = b := by simp
    have second : (front ++ b :: c :: rest ++ back).getD (front.length + 1) 0 = c := by simp
    rw [integerTests, first, second, Bool.and_eq_true, Bool.and_eq_true, topClear_iff, Bool.not_eq_true', ← Bool.not_eq_true,
      Bool.and_eq_true, Bool.and_eq_true, topClear_iff, beq_iff_eq]
    simp [ShortestInteger]

theorem isValidSignatureEncoding_iff : isValidSignatureEncoding sig = true ↔
    9 ≤ sig.length ∧ sig.length ≤ 73 ∧ sig.getD 0 0 = 0x30 ∧ (sig.getD 1 0).toNat = sig.length - 3 ∧
    (sig.getD 3 0).toNat + (sig.getD (5 + (sig.getD 3 0).toNat) 0).toNat + 7 = sig.length ∧
    5 + (sig.getD 3 0).toNat < sig.length ∧ sig.getD 2 0 = 0x02 ∧ integerTests sig 4 (sig.getD 3 0).toNat = true ∧
    sig.getD ((sig.getD 3 0).toNat + 4) 0 = 0x02 ∧
    integerTests sig ((sig.getD 3 0).toNat + 6) (sig.getD (5 + (sig.getD 3 0).toNat) 0).toNat = true := by
  simp only [isValidSignatureEncoding, integerTests, Bool.and_eq_true, beq_iff_eq, Bool.not_eq_true', decide_eq_true_eq,
    decide_eq_false_iff_not, Nat.not_lt]
  tauto

theorem getD_behind {i : Nat} (length : front.length = i) (b : UInt8) (back : valtype) : (front ++ b :: back).getD i 0 = b := by
  subst length
  simp

theorem isValidSignatureEncoding_frame {h : UInt8} {R S : List UInt8} (lenR : r.toNat = R.length) (lenS : s.toNat = S.length) :
    isValidSignatureEncoding ([a, b, c, r] ++ R ++ [d, s] ++ S ++ [h]) = true ↔
      R.length + S.length + 7 ≤ 73 ∧ a = 0x30 ∧ b.toNat = R.length + S.length + 4 ∧ c = 0x02 ∧ ShortestInteger R ∧ d = 0x02 ∧ ShortestInteger S := by
  have length : ([a, b, c, r] ++ R ++ [d, s] ++ S ++ [h]).length = R.length + S.length + 7 := by
    simp only [List.length_append, List.length_cons, List.length_nil]
    omega
  have atR : ([a, b, c, r] ++ R ++ [d, s] ++ S ++ [h]).getD 3 0 = r := rfl
  have atType : ([a, b, c, r] ++ R ++ [d, s] ++ S ++ [h]).getD (R.length + 4) 0 = d := by
    have behind := @getD_behind ([a, b, c, r] ++ R) (R.length + 4) (by simp) d (s :: S ++ [h])
    simpa only [List.append_assoc, List.cons_append, List.nil_append] using behind
  have atS : ([a, b, c, r] ++ R ++ [d, s] ++ S ++ [h]).getD (5 + R.length) 0 = s := by
    have behind := @getD_behind ([a, b, c, r] ++ R ++ [d]) (5 + R.length) (by simp; omega) s (S ++ [h])
    simpa only [List.append_assoc, List.cons_append, List.nil_append] using behind
  have testsR : integerTests ([a, b, c, r] ++ R ++ [d, s] ++ S ++ [h]) 4 R.length = true ↔ ShortestInteger R := by
    have tests := integerTests_iff [a, b, c, r] R ([d, s] ++ S ++ [h])
    have position : ([a, b, c, r] : valtype).length = 4 := rfl
    rw [position] at tests
    simpa only [List.append_assoc] using tests
  have testsS : integerTests ([a, b, c, r] ++ R ++ [d, s] ++ S ++ [h]) (R.length + 6) S.length = true ↔ ShortestInteger S := by
    have tests := integerTests_iff ([a, b, c, r] ++ R ++ [d, s]) S [h]
    have position : ([a, b, c, r] ++ R ++ [d, s]).length = R.length + 6 := by simp
    rwa [position] at tests
  rw [isValidSignatureEncoding_iff, atR, lenR, atS, lenS, atType, length, testsR, testsS]
  constructor
  · intro ⟨_, long, isA, isB, _, _, isC, shortestR, isD, shortestS⟩
    exact ⟨long, isA, isB, isC, shortestR, isD, shortestS⟩
  · intro ⟨long, isA, isB, isC, shortestR, isD, shortestS⟩
    have someR := shortestR.length_pos
    have someS := shortestS.length_pos
    exact ⟨by omega, long, isA, isB, by omega, by omega, isC, shortestR, isD, shortestS⟩

theorem exists_frame {sig : valtype} (total : (sig.getD 3 0).toNat + (sig.getD (5 + (sig.getD 3 0).toNat) 0).toNat + 7 = sig.length) :
    ∃ a b c r d s h R S, sig = [a, b, c, r] ++ R ++ [d, s] ++ S ++ [h] ∧ r.toNat = R.length ∧ s.toNat = S.length := by
  match sig, total with
  | a :: b :: c :: r :: rest, total =>
    have atR : (a :: b :: c :: r :: rest).getD 3 0 = r := rfl
    rw [atR] at total
    simp only [List.length_cons] at total
    have before : (rest.take r.toNat).length = r.toNat := by
      rw [List.length_take]
      omega
    have after : (rest.drop r.toNat).length = rest.length - r.toNat := List.length_drop
    have whole := List.take_append_drop r.toNat rest
    generalize rest.take r.toNat = R at before whole
    match rest.drop r.toNat, after, whole with
    | [], after, _ | [_], after, _ =>
      simp at after
      omega
    | d :: s :: back, after, whole =>
      have atS : (a :: b :: c :: r :: rest).getD (5 + r.toNat) 0 = s := by
        rw [← whole]
        have behind := @getD_behind ([a, b, c, r] ++ R ++ [d]) (5 + r.toNat) (by simp; omega) s back
        simpa only [List.append_assoc, List.cons_append, List.nil_append] using behind
      rw [atS] at total
      rw [List.length_cons, List.length_cons] at after
      have some_ : back ≠ [] := fun empty => by
        rw [empty, List.length_nil] at after
        omega
      refine ⟨a, b, c, r, d, s, back.getLast some_, R, back.dropLast, ?_, before.symm, ?_⟩
      · rw [List.append_assoc _ back.dropLast, List.dropLast_append_getLast, ← whole]
        simp
      · rw [List.length_dropLast]
        omega

theorem byte_toNat (small : n ≤ 73) : (UInt8.ofNat n).toNat = n := by
  rw [UInt8.toNat_ofNat']
  omega

theorem isValidSignatureEncoding_iff_der : isValidSignatureEncoding sig = true ↔ ∃ d : DerSignature, sig = d.bytes := by
  constructor
  · intro valid
    have total := ((isValidSignatureEncoding_iff sig).mp valid).2.2.2.2.1
    obtain ⟨a, b, c, r, d, s, h, R, S, rfl, lenR, lenS⟩ := exists_frame total
    obtain ⟨size, isA, isB, isC, shortestR, isD, shortestS⟩ := (isValidSignatureEncoding_frame lenR lenS).mp valid
    refine ⟨⟨R, S, h, shortestR, shortestS, size⟩, ?_⟩
    rw [DerSignature.bytes, isA, isC, isD, ← isB, ← lenR, ← lenS, UInt8.ofNat_toNat, UInt8.ofNat_toNat, UInt8.ofNat_toNat]
  · intro ⟨d, isDer⟩
    have size := d.size
    rw [isDer, DerSignature.bytes, isValidSignatureEncoding_frame (byte_toNat (by omega)) (byte_toNat (by omega))]
    exact ⟨size, rfl, byte_toNat (by omega), rfl, d.shortestR, rfl, d.shortestS⟩

theorem ShortestInteger.bounds (shortest : ShortestInteger (b :: rest)) :
    2 * integerOf (b :: rest) < 256 ^ (rest.length + 1) ∧ (256 ^ rest.length ≤ 2 * integerOf (b :: rest) ∨ rest.length = 0) := by
  obtain ⟨clear, padded⟩ := shortest
  -- from its last byte it is a number of a script that is not negative
  have value : CScriptNum.setVch (rest.reverse ++ [b]) = integerOf (b :: rest) := by
    rw [CScriptNum.setVch_concat, if_neg (Nat.not_le.mpr clear), integerOf, List.reverse_cons]
  obtain ⟨most, least⟩ := CScriptNum.setVch_bounds rest.reverse b
  rw [value, Int.natAbs_natCast, List.length_reverse] at most least
  refine ⟨most, ?_⟩
  by_cases isNull : b = 0
  · cases rest with
    | nil => exact Or.inr rfl
    | cons c rest =>
      refine Or.inl (least ((CScriptNum.isMinimal_concat _ _).mpr (Or.inr ⟨c, ?_, padded c rfl isNull⟩)))
      rw [List.getLast?_reverse]
      rfl
  · have nonzero : b.toNat ≠ 0 := fun isZero => isNull (UInt8.toNat_inj.mp isZero)
    exact Or.inl (least ((CScriptNum.isMinimal_concat _ _).mpr (Or.inl (by omega))))

theorem length_le_of_bounds (least : 256 ^ k ≤ n ∨ k = 0) (most : n < 256 ^ (k' + 1)) : k ≤ k' := by
  rcases least with least | isZero
  · have := (Nat.pow_lt_pow_iff_right (show 1 < 256 by omega)).mp (Nat.lt_of_le_of_lt least most)
    omega
  · omega

theorem ShortestInteger.unique (shortest : ShortestInteger bytes) (shortest' : ShortestInteger bytes')
    (same : integerOf bytes = integerOf bytes') : bytes = bytes' := by
  match bytes, bytes', shortest, shortest' with
  | b :: rest, b' :: rest', shortest, shortest' =>
    obtain ⟨most, least⟩ := shortest.bounds
    obtain ⟨most', least'⟩ := shortest'.bounds
    have length : (b :: rest).reverse.length = (b' :: rest').reverse.length := by
      have shorter := length_le_of_bounds least (same ▸ most')
      have longer := length_le_of_bounds least' (same ▸ most)
      rw [List.length_reverse, List.length_reverse, List.length_cons, List.length_cons]
      omega
    apply List.reverse_injective
    rw [← leBytes_leValue (b :: rest).reverse, ← leBytes_leValue (b' :: rest').reverse, length]
    exact congrArg _ same

namespace DerSignature

theorem ext {d : DerSignature} (sameR : d.R = d'.R) (sameS : d.S = d'.S) (same : d.hashtype = d'.hashtype) : d = d' := by
  cases d
  cases d'
  cases sameR
  cases sameS
  cases same
  rfl

theorem bytes_injective : Function.Injective bytes := by
  intro d d' same
  have size := d.size
  have size' := d'.size
  have total := congrArg List.length same
  rw [length_bytes, length_bytes] at total
  have lengthR : d.R.length = d'.R.length := by
    have fourth := congrArg (fun sig : valtype => (sig.getD 3 0).toNat) same
    exact (byte_toNat (by omega)).symm.trans (Eq.trans fourth (byte_toNat (by omega)))
  unfold bytes at same
  obtain ⟨front, last⟩ := List.append_inj' same rfl
  obtain ⟨front, sameS⟩ := List.append_inj' front (by omega)
  obtain ⟨front, _⟩ := List.append_inj' front rfl
  obtain ⟨_, sameR⟩ := List.append_inj' front lengthR
  exact ext sameR sameS (List.cons.inj last).1

end DerSignature

/-- No read of the check is outside the vector, and what it accepts are the signatures in the one form: nine to 73 bytes, the lengths
those of what follows, both integers in the fewest bytes. -/
theorem signatureEncoding_strict :
    (∀ sig, readSignatureEncoding sig = some (isValidSignatureEncoding sig)) ∧
    (∀ sig, isValidSignatureEncoding sig = true ↔ 9 ≤ sig.length ∧ sig.length ≤ 73 ∧ ∃ d : DerSignature, sig = d.bytes) ∧
    Function.Injective DerSignature.bytes ∧
    ∀ d d' : DerSignature, d.hashtype = d'.hashtype → d.bytes ≠ d'.bytes → (integerOf d.R, integerOf d.S) ≠ (integerOf d'.R, integerOf d'.S) := by
  refine ⟨readSignatureEncoding_eq, ?_, DerSignature.bytes_injective, ?_⟩
  · intro sig
    rw [isValidSignatureEncoding_iff_der]
    constructor
    · intro ⟨d, isDer⟩
      have someR := d.shortestR.length_pos
      have someS := d.shortestS.length_pos
      have size := d.size
      have length := d.length_bytes
      rw [isDer]
      exact ⟨by omega, by omega, d, rfl⟩
    · intro ⟨_, _, der⟩
      exact der
  · intro d d' hashtype other same
    obtain ⟨sameR, sameS⟩ := Prod.mk.inj same
    exact other (congrArg DerSignature.bytes
      (DerSignature.ext (d.shortestR.unique d'.shortestR sameR) (d.shortestS.unique d'.shortestS sameS) hashtype))

def signatureOfOnes : DerSignature := ⟨[1], [1], 1, ⟨by decide, nofun⟩, ⟨by decide, nofun⟩, by decide⟩

def signatureWithZero : DerSignature := ⟨[1], [0], 1, ⟨by decide, nofun⟩, ⟨by decide, nofun⟩, by decide⟩

theorem signatureEncoding_strict_ones : (integerOf [1], integerOf [1]) ≠ (integerOf [1], integerOf [0]) :=
  signatureEncoding_strict.2.2.2 signatureOfOnes signatureWithZero rfl (by decide)

end SchillingCoin
