import Mathlib.Data.Nat.Bitwise
import SchillingCoin.Stake.Target

/-!
The compact form of a target, after `SetCompact` and `GetCompact` in `uint256.cpp`, and what is read from it in `pow.cpp`.
-/

namespace SchillingCoin

variable (nCompact nBits : BitVec 32) (n size : Nat)

def nWordOf : Nat :=
  let nSize := nCompact.toNat / 2 ^ 24
  let nWord := nCompact.toNat % 2 ^ 23
  if nSize ≤ 3 then nWord / 256 ^ (3 - nSize) else nWord

def compactNegative : Bool := nWordOf nCompact ≠ 0 && nCompact.toNat.testBit 23

def compactOverflow : Bool :=
  let nSize := nCompact.toNat / 2 ^ 24
  let nWord := nWordOf nCompact
  nWord ≠ 0 && (nSize > 34 || (nWord > 0xff && nSize > 33) || (nWord > 0xffff && nSize > 32))

def getBlockProof : uint256 :=
  let bnTarget := setCompact nBits
  if compactNegative nBits || compactOverflow nBits || bnTarget = 0 then 0 else ~~~bnTarget / (bnTarget + 1) + 1

def checkProofOfWork (network : Network) (hash : uint256) (nBits : BitVec 32) : Bool :=
  if network = .regtest then true
  else
    let bnTarget := setCompact nBits
    if compactNegative nBits || bnTarget = 0 || compactOverflow nBits || bnTarget > powLimit then false else decide (hash ≤ bnTarget)

theorem pow_256 (k : Nat) : (256 : Nat) ^ k = 2 ^ (8 * k) := by rw [show (256 : Nat) = 2 ^ 8 from rfl, ← pow_mul]

def topBytes : Nat := n * 2 ^ 24 / 256 ^ size

theorem topBytes_mul_le : topBytes n size * 256 ^ size / 2 ^ 24 ≤ n := by
  apply Nat.div_le_of_le_mul
  rw [Nat.mul_comm (2 ^ 24)]
  exact Nat.div_mul_le_self _ _

theorem topBytes_succ : topBytes n size / 256 = topBytes n (size + 1) := by
  unfold topBytes
  rw [Nat.div_div_eq_div_mul, ← pow_succ]

theorem two_pow_log2_le {n size : Nat} (positive : n ≠ 0) (large : 2 ^ 15 ≤ topBytes n size) :
    2 ^ n.log2 ≤ topBytes n size * 256 ^ size / 2 ^ 24 := by
  have below : n < 2 ^ (n.log2 + 1) := Nat.lt_log2_self
  have above : 2 ^ n.log2 ≤ n := Nat.log2_self_le positive
  have base := pow_256 size
  have room : 8 * size ≤ n.log2 + 24 := by
    have whole : 2 ^ 15 * 256 ^ size ≤ n * 2 ^ 24 := (Nat.mul_le_mul_right _ large).trans (Nat.div_mul_le_self _ _)
    rw [base, ← pow_add] at whole
    have less : 2 ^ (15 + 8 * size) < 2 ^ (n.log2 + 1 + 24) := by
      rw [pow_add 2 (n.log2 + 1) 24]
      exact lt_of_le_of_lt whole (Nat.mul_lt_mul_of_pos_right below (by decide))
    have exponents := (Nat.pow_lt_pow_iff_right (by decide)).mp less
    omega
  have bytes : 2 ^ (n.log2 + 24 - 8 * size) ≤ topBytes n size := by
    unfold topBytes
    rw [Nat.le_div_iff_mul_le (by positivity), base, ← pow_add, Nat.sub_add_cancel room, pow_add]
    exact Nat.mul_le_mul_right _ above
  rw [Nat.le_div_iff_mul_le (by decide), ← pow_add]
  calc 2 ^ (n.log2 + 24) = 2 ^ (n.log2 + 24 - 8 * size) * 256 ^ size := by rw [base, ← pow_add, Nat.sub_add_cancel room]
    _ ≤ topBytes n size * 256 ^ size := Nat.mul_le_mul_right _ bytes

def byteSize : Nat := (n.log2 + 1 + 7) / 8

theorem byteSize_bounds {n : Nat} (positive : n ≠ 0) : 256 ^ (byteSize n - 1) ≤ n ∧ n < 256 ^ byteSize n ∧ 1 ≤ byteSize n := by
  have below : n < 2 ^ (n.log2 + 1) := Nat.lt_log2_self
  have above : 2 ^ n.log2 ≤ n := Nat.log2_self_le positive
  unfold byteSize
  rw [pow_256, pow_256]
  refine ⟨le_trans (Nat.pow_le_pow_right (by decide) (by omega)) above, lt_of_lt_of_le below (Nat.pow_le_pow_right (by decide) (by omega)), by omega⟩

theorem topBytes_bounds {n : Nat} (positive : n ≠ 0) : 2 ^ 16 ≤ topBytes n (byteSize n) ∧ topBytes n (byteSize n) < 2 ^ 24 := by
  obtain ⟨above, below, one⟩ := byteSize_bounds positive
  unfold topBytes
  constructor
  · rw [Nat.le_div_iff_mul_le (by positivity)]
    calc 2 ^ 16 * 256 ^ byteSize n = 256 ^ (byteSize n - 1) * 2 ^ 24 := by
          conv_lhs => rw [← Nat.sub_add_cancel one, pow_succ]
          ring
      _ ≤ n * 2 ^ 24 := Nat.mul_le_mul_right _ above
  · rw [Nat.div_lt_iff_lt_mul (by positivity), Nat.mul_comm (2 ^ 24)]
    exact Nat.mul_lt_mul_of_pos_right below (by decide)

theorem byteSize_le {n : uint256} (nonzero : n.toNat ≠ 0) : byteSize n.toNat ≤ 32 := by
  have bits : n.toNat.log2 < 256 := (Nat.log2_lt nonzero).mpr n.isLt
  unfold byteSize
  omega

theorem shifted_eq_topBytes {n : uint256} (nonzero : n.toNat ≠ 0) :
    (if byteSize n.toNat ≤ 3 then (n.toNat <<< (8 * (3 - byteSize n.toNat))) % 2 ^ 32
      else (n.toNat >>> (8 * (byteSize n.toNat - 3))) % 2 ^ 32) = topBytes n.toNat (byteSize n.toNat) := by
  obtain ⟨_, high⟩ := topBytes_bounds nonzero
  split
  · next short =>
    have same : n.toNat <<< (8 * (3 - byteSize n.toNat)) = topBytes n.toNat (byteSize n.toNat) := by
      have powers : (2 : Nat) ^ 24 = 2 ^ (8 * (3 - byteSize n.toNat)) * 256 ^ byteSize n.toNat := by
        rw [pow_256, ← pow_add]
        congr 1
        omega
      rw [Nat.shiftLeft_eq, topBytes, powers, ← Nat.mul_assoc, Nat.mul_div_cancel _ (by positivity)]
    rw [same, Nat.mod_eq_of_lt (by omega)]
  · next long =>
    have same : n.toNat >>> (8 * (byteSize n.toNat - 3)) = topBytes n.toNat (byteSize n.toNat) := by
      have powers : (256 : Nat) ^ byteSize n.toNat = 2 ^ (8 * (byteSize n.toNat - 3)) * 2 ^ 24 := by
        rw [pow_256, ← pow_add]
        congr 1
        omega
      rw [Nat.shiftRight_eq_div_pow, topBytes, powers, Nat.mul_div_mul_right _ _ (by decide)]
    rw [same, Nat.mod_eq_of_lt (by omega)]

theorem bits_eq_byteSize {n : uint256} (positive : n ≠ 0) : ((if n = 0 then 0 else n.toNat.log2 + 1) + 7) / 8 = byteSize n.toNat := by
  rw [if_neg positive]
  rfl

theorem getCompact_eq {n : uint256} (positive : n ≠ 0) : getCompact n =
    if (topBytes n.toNat (byteSize n.toNat)).testBit 23 then topBytes n.toNat (byteSize n.toNat) >>> 8 ||| (byteSize n.toNat + 1) <<< 24
    else topBytes n.toNat (byteSize n.toNat) ||| byteSize n.toNat <<< 24 := by
  have nonzero : n.toNat ≠ 0 := fun zero => positive (BitVec.eq_of_toNat_eq (zero.trans rfl))
  unfold getCompact
  dsimp only
  rw [bits_eq_byteSize positive, shifted_eq_topBytes nonzero]

theorem getCompact_parts {n : uint256} (positive : n ≠ 0) :
    ∃ size, getCompact n = topBytes n.toNat size + size * 2 ^ 24 ∧ 2 ^ 15 ≤ topBytes n.toNat size ∧ topBytes n.toNat size < 2 ^ 23 ∧ size ≤ 33 ∧
      (size = 33 → topBytes n.toNat size < 2 ^ 16) := by
  have nonzero : n.toNat ≠ 0 := fun zero => positive (BitVec.eq_of_toNat_eq (zero.trans rfl))
  obtain ⟨low, high⟩ := topBytes_bounds nonzero
  have small := byteSize_le nonzero
  have joined : ∀ {word size : Nat}, word < 2 ^ 24 → word ||| size <<< 24 = word + size * 2 ^ 24 := by
    intro word size small
    rw [Nat.or_comm, ← Nat.shiftLeft_add_eq_or_of_lt small, Nat.shiftLeft_eq, Nat.add_comm]
  have sign : (topBytes n.toNat (byteSize n.toNat)).testBit 23 = decide (2 ^ 23 ≤ topBytes n.toNat (byteSize n.toNat)) := by
    rw [Nat.testBit_eq_decide_div_mod_eq]
    congr 1
    apply propext
    omega
  rw [getCompact_eq positive, sign]
  by_cases signed : 2 ^ 23 ≤ topBytes n.toNat (byteSize n.toNat)
  · rw [if_pos (decide_eq_true signed), Nat.shiftRight_eq_div_pow, joined (by omega)]
    have next := topBytes_succ n.toNat (byteSize n.toNat)
    refine ⟨byteSize n.toNat + 1, ?_, ?_, ?_, by omega, fun _ => ?_⟩
    · rw [← next]
    · omega
    · omega
    · omega
  · rw [if_neg (by simpa using signed), joined high]
    exact ⟨byteSize n.toNat, rfl, by omega, by omega, by omega, by omega⟩

theorem setCompact_toNat {word size : Nat} (small : word < 2 ^ 23) (sized : size < 256) :
    (setCompact (BitVec.ofNat 32 (word + size * 2 ^ 24))).toNat = word * 256 ^ size / 2 ^ 24 % 2 ^ 256 := by
  have whole : (BitVec.ofNat 32 (word + size * 2 ^ 24)).toNat = word + size * 2 ^ 24 := by
    rw [BitVec.toNat_ofNat, Nat.mod_eq_of_lt (by omega)]
  unfold setCompact
  dsimp only
  rw [whole, show (word + size * 2 ^ 24) / 2 ^ 24 = size by omega, show (word + size * 2 ^ 24) % 2 ^ 23 = word by omega]
  split
  · next short =>
    have powers : (2 : Nat) ^ 24 = 256 ^ (3 - size) * 256 ^ size := by
      rw [← pow_add, Nat.sub_add_cancel short]
      rfl
    rw [BitVec.toNat_ofNat, powers, Nat.mul_div_mul_right _ _ (by positivity)]
  · next long =>
    have powers : (256 : Nat) ^ size = 256 ^ (size - 3) * 2 ^ 24 := by
      rw [show (2 : Nat) ^ 24 = 256 ^ 3 from rfl, ← pow_add]
      congr 1
      omega
    rw [BitVec.toNat_ofNat, powers, ← Nat.mul_assoc, Nat.mul_div_cancel _ (by decide)]

theorem compactBits_spec {n : uint256} (positive : n ≠ 0) :
    (setCompact (compactBits n)).toNat ≤ n.toNat ∧ 2 ^ n.toNat.log2 ≤ (setCompact (compactBits n)).toNat ∧
      compactNegative (compactBits n) = false ∧ compactOverflow (compactBits n) = false := by
  have nonzero : n.toNat ≠ 0 := fun zero => positive (BitVec.eq_of_toNat_eq (zero.trans rfl))
  obtain ⟨size, parts, low, high, few, last⟩ := getCompact_parts positive
  have below := topBytes_mul_le n.toNat size
  have value : (setCompact (compactBits n)).toNat = topBytes n.toNat size * 256 ^ size / 2 ^ 24 := by
    rw [compactBits, parts, setCompact_toNat high (by omega), Nat.mod_eq_of_lt (lt_of_le_of_lt below n.isLt)]
  have whole : (compactBits n).toNat = topBytes n.toNat size + size * 2 ^ 24 := by
    rw [compactBits, parts, BitVec.toNat_ofNat, Nat.mod_eq_of_lt (by omega)]
  refine ⟨by rw [value]; exact below, by rw [value]; exact two_pow_log2_le nonzero low, ?_, ?_⟩
  · have sign : (compactBits n).toNat.testBit 23 = false := by
      rw [whole, Nat.testBit_eq_decide_div_mod_eq, decide_eq_false_iff_not]
      omega
    rw [compactNegative, sign, Bool.and_false]
  · have sized : (compactBits n).toNat / 2 ^ 24 = size := by omega
    have word : (compactBits n).toNat % 2 ^ 23 = topBytes n.toNat size := by omega
    unfold compactOverflow nWordOf
    dsimp only
    rw [sized, word]
    split
    · next short => simp only [show ¬size > 34 by omega, show ¬size > 33 by omega, show ¬size > 32 by omega, decide_false, Bool.and_false, Bool.or_self]
    · simp only [show ¬size > 34 by omega, show ¬size > 33 by omega, decide_false, Bool.and_false, Bool.false_or]
      by_cases large : size = 33
      · have tiny := last large
        simp only [show ¬topBytes n.toNat size > 0xffff by omega, decide_false, Bool.false_and, Bool.and_false]
      · simp only [show ¬size > 32 by omega, decide_false, Bool.and_false]

theorem setCompact_gap (high : 232 ≤ k) (below : (setCompact nBits).toNat < 2 ^ k) :
    (setCompact nBits).toNat + 2 ^ 216 ≤ 2 ^ k := by
  have word : nBits.toNat % 2 ^ 23 < 2 ^ 23 := Nat.mod_lt _ (by decide)
  have top : (2 : Nat) ^ 232 ≤ 2 ^ k := Nat.pow_le_pow_right (by decide) high
  by_cases small : (setCompact nBits).toNat < 2 ^ 231
  · omega
  · -- The exponent is so high that the target is a multiple of the free part.
    have multiple : 2 ^ 216 ∣ (setCompact nBits).toNat := by
      unfold setCompact at small ⊢
      dsimp only at small ⊢
      split at small
      · next short =>
        rw [BitVec.toNat_ofNat] at small
        have less := Nat.div_le_self (nBits.toNat % 2 ^ 23) (256 ^ (3 - nBits.toNat / 2 ^ 24))
        have mod := Nat.mod_le (nBits.toNat % 2 ^ 23 / 256 ^ (3 - nBits.toNat / 2 ^ 24)) (2 ^ 256)
        omega
      · next long =>
        rw [BitVec.toNat_ofNat] at small
        rw [if_neg long, BitVec.toNat_ofNat]
        have large : 27 ≤ nBits.toNat / 2 ^ 24 - 3 := by
          by_contra few
          have mod := Nat.mod_le (nBits.toNat % 2 ^ 23 * 256 ^ (nBits.toNat / 2 ^ 24 - 3)) (2 ^ 256)
          have bound : nBits.toNat % 2 ^ 23 * 256 ^ (nBits.toNat / 2 ^ 24 - 3) < 2 ^ 23 * 256 ^ 26 :=
            Nat.mul_lt_mul_of_lt_of_le word (Nat.pow_le_pow_right (by decide) (by omega)) (by positivity)
          exact small (lt_of_le_of_lt mod bound)
        have power : (2 : Nat) ^ 216 ∣ 256 ^ (nBits.toNat / 2 ^ 24 - 3) := by
          rw [pow_256]
          exact Nat.pow_dvd_pow 2 (by omega)
        exact (Nat.dvd_mod_iff (Nat.pow_dvd_pow 2 (by decide))).mpr (Dvd.dvd.mul_left power _)
    have limit : (2 : Nat) ^ 216 ∣ 2 ^ k := Nat.pow_dvd_pow 2 (by omega)
    obtain ⟨a, isA⟩ := multiple
    obtain ⟨b, isB⟩ := limit
    rw [isA, isB] at below ⊢
    have less := Nat.lt_of_mul_lt_mul_left below
    calc 2 ^ 216 * a + 2 ^ 216 = 2 ^ 216 * (a + 1) := by ring
      _ ≤ 2 ^ 216 * b := Nat.mul_le_mul_left _ less

theorem getBlockProof_ne_zero {nBits : BitVec 32} (positive : setCompact nBits ≠ 0) (negative : compactNegative nBits = false)
    (overflow : compactOverflow nBits = false) : getBlockProof nBits ≠ 0 := by
  have nonzero : (setCompact nBits).toNat ≠ 0 := fun zero => positive (BitVec.eq_of_toNat_eq (zero.trans rfl))
  unfold getBlockProof
  dsimp only
  rw [negative, overflow, Bool.false_or, Bool.false_or, if_neg (by simpa using positive)]
  intro zero
  have value := congrArg BitVec.toNat zero
  have quotient := Nat.div_le_self (2 ^ 256 - 1 - (setCompact nBits).toNat) (setCompact nBits + 1).toNat
  rw [BitVec.toNat_add, BitVec.toNat_udiv, BitVec.toNat_not] at value
  generalize (2 ^ 256 - 1 - (setCompact nBits).toNat) / (setCompact nBits + 1).toNat = q at value quotient
  have sum : (q + 1) % 2 ^ 256 = 0 := value
  omega

end SchillingCoin
