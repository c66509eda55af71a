import SchillingCoin.Masternode.Ranks
import SchillingCoin.Stake.Kernel

/-!
The target of the next block, after `pow.cpp`, and what its product with the staked value does to a kernel.
-/

namespace SchillingCoin

structure WorkEntry where
  nHeight : Nat
  nTime : Nat
  nBits : BitVec 32
  deriving DecidableEq, Repr

def powLimit : uint256 := BitVec.allOnes 256 >>> 20

def nTargetSpacing : Int := 60

structure GravityWave where
  countBlocks : Nat := 0
  nActualTimespan : Int := 0
  lastBlockTime : Nat := 0
  pastDifficultyAverage : uint256 := 0

def GravityWave.read (g : GravityWave) (blockReading : WorkEntry) : GravityWave :=
  let countBlocks := g.countBlocks + 1
  let bnTarget := setCompact blockReading.nBits
  { countBlocks
    nActualTimespan :=
      if g.lastBlockTime > 0 then g.nActualTimespan + ((g.lastBlockTime : Int) - blockReading.nTime) else g.nActualTimespan
    lastBlockTime := blockReading.nTime
    pastDifficultyAverage :=
      if countBlocks = 1 then bnTarget
      else (g.pastDifficultyAverage * BitVec.ofNat 256 countBlocks + bnTarget) / BitVec.ofNat 256 (countBlocks + 1) }

/-- The blocks down to the genesis block, at most `pastBlocksMax` of them. -/
def GravityWave.readAll : (pastBlocksMax : Nat) → GravityWave → List WorkEntry → GravityWave
  | 0, g, _ => g
  | _, g, [] => g
  | n + 1, g, blockReading :: rest => if blockReading.nHeight > 0 then GravityWave.readAll n (g.read blockReading) rest else g

def GravityWave.retarget (g : GravityWave) : uint256 :=
  let nTargetTimespan := g.countBlocks * nTargetSpacing
  let nActualTimespan := if g.nActualTimespan < nTargetTimespan / 3 then nTargetTimespan / 3 else g.nActualTimespan
  let nActualTimespan := if nActualTimespan > nTargetTimespan * 3 then nTargetTimespan * 3 else nActualTimespan
  let bnNew := g.pastDifficultyAverage * BitVec.ofNat 256 (nActualTimespan % 2 ^ 32).toNat / BitVec.ofNat 256 nTargetTimespan.toNat
  if bnNew > powLimit then powLimit else bnNew

def stakeTargetLimit : uint256 := BitVec.allOnes 256 >>> 24

def stakeSpacing (network : Network) (pindexLast pprev : WorkEntry) : Int :=
  let nActualSpacing : Int := if pindexLast.nHeight ≠ 0 then (pindexLast.nTime : Int) - pprev.nTime else 0
  let nActualSpacing := if nActualSpacing < 0 then 1 else nActualSpacing
  if network.consensus.isTimeProtocolV2 (pindexLast.nHeight + 1) ∧ nActualSpacing > nTargetSpacing * 10 then nTargetSpacing * 10
  else nActualSpacing

def stakeRetarget (network : Network) (pindexLast pprev : WorkEntry) : uint256 :=
  let nInterval := 60 * 40 / nTargetSpacing
  let nActualSpacing := stakeSpacing network pindexLast pprev
  let bnNew := setCompact pindexLast.nBits
  -- the first block of the second time protocol is sixteen times easier
  let bnNew :=
    if network.consensus.isTimeProtocolV2 (pindexLast.nHeight + 1) ∧ !network.consensus.isTimeProtocolV2 pindexLast.nHeight then
      bnNew <<< 4
    else bnNew
  let bnNew := bnNew * BitVec.ofNat 256 (((nInterval - 1) * nTargetSpacing + nActualSpacing + nActualSpacing) % 2 ^ 32).toNat /
    BitVec.ofNat 256 ((nInterval + 1) * nTargetSpacing).toNat
  if bnNew = 0 ∨ bnNew > stakeTargetLimit then stakeTargetLimit else bnNew

def compactBits (n : uint256) : BitVec 32 := BitVec.ofNat 32 (getCompact n)

/-- The entry of the last block comes first, its ancestors after it; `none` is a null pointer that is read. -/
def getNextWorkRequired (network : Network) : List WorkEntry → Option (BitVec 32)
  | [] => if network = .regtest then none else some (compactBits powLimit)
  | pindexLast :: ancestors =>
    if network = .regtest then some pindexLast.nBits
    else if pindexLast.nHeight = 0 ∨ pindexLast.nHeight < 24 then some (compactBits powLimit)
    else if pindexLast.nHeight ≥ network.consensus.height_last_PoW then
      ancestors.head?.map fun pprev => compactBits (stakeRetarget network pindexLast pprev)
    else some (compactBits (GravityWave.readAll 24 {} (pindexLast :: ancestors)).retarget)

theorem littleEndian_lowBytes (n value : Nat) : CScript.littleEndian (lowBytes n value) = value % 256 ^ n := by
  induction n generalizing value with
  | zero => simp [lowBytes, CScript.littleEndian, Nat.mod_one]
  | succ n ih =>
    have low : (UInt8.ofNat value).toNat = value % 256 := UInt8.toNat_ofNat'
    have step : CScript.littleEndian (lowBytes (n + 1) value) =
        (UInt8.ofNat value).toNat + 256 * CScript.littleEndian (lowBytes n (value / 256)) := rfl
    rw [step, low, ih, Nat.pow_succ', Nat.mod_mul]

variable {target modulus limit : Nat} {nBits : BitVec 32}

theorem first_wrap (positive : 0 < modulus) (wraps : modulus ≤ target * limit) :
    ∃ n, n < limit ∧ target * n < modulus ∧ modulus ≤ target * (n + 1) := by
  induction limit with
  | zero => omega
  | succ n ih =>
    by_cases earlier : modulus ≤ target * n
    · obtain ⟨m, below, rest⟩ := ih earlier
      exact ⟨m, by omega, rest⟩
    · exact ⟨n, by omega, by omega, wraps⟩

theorem wrapped_smaller (small : target < modulus) (before : target * n < modulus) (after : modulus ≤ target * (n + 1)) :
    target * (n + 1) % modulus < target * n ∧ target * (n + 1) % modulus < modulus - 1 := by
  have next : target * (n + 1) = target * n + target := Nat.mul_succ target n
  have rest : target * (n + 1) % modulus = target * (n + 1) - modulus := by
    rw [Nat.mod_eq_sub_mod after]
    exact Nat.mod_eq_of_lt (by omega)
  omega

theorem products_grow_iff (small : target < modulus) :
    (∀ h v w, v ≤ w → w ≤ limit → h < target * v % modulus → h < target * w % modulus) ↔ target * limit < modulus := by
  constructor
  · intro grows
    by_contra wraps
    obtain ⟨n, below, before, after⟩ := first_wrap (by omega) (Nat.le_of_not_lt wraps)
    have smaller := (wrapped_smaller small before after).1
    have same : target * n % modulus = target * n := Nat.mod_eq_of_lt before
    exact absurd (grows _ n (n + 1) (by omega) below (by rw [same]; exact smaller)) (Nat.lt_irrefl _)
  · intro fits h v w ordered inside passes
    have left : target * v ≤ target * w := Nat.mul_le_mul_left target ordered
    have right : target * w ≤ target * limit := Nat.mul_le_mul_left target inside
    rw [Nat.mod_eq_of_lt (by omega)] at passes ⊢
    omega

theorem products_capped_iff (small : target < modulus) :
    (∀ v, v ≤ limit → target * v % modulus = min (target * v) (modulus - 1)) ↔ target * limit < modulus := by
  constructor
  · intro capped
    by_contra wraps
    obtain ⟨n, below, before, after⟩ := first_wrap (by omega) (Nat.le_of_not_lt wraps)
    have smaller := (wrapped_smaller small before after).2
    have equal := capped (n + 1) below
    rw [Nat.min_eq_right (by omega)] at equal
    omega
  · intro fits v inside
    have bound : target * v ≤ target * limit := Nat.mul_le_mul_left target inside
    rw [Nat.mod_eq_of_lt (by omega), Nat.min_eq_left (by omega)]

def weightedTarget (nBits : BitVec 32) (stakeValue : Int) : uint256 :=
  setCompact nBits * (BitVec.ofNat 256 (stakeValue % 2 ^ 64).toNat / 100)

namespace CStakeKernel

theorem checkKernelHash_iff {k : CStakeKernel} :
    k.checkKernelHash crypto = true ↔ k.getHash crypto < weightedTarget k.nBits k.stakeValue := decide_eq_true_iff

def staking (k : CStakeKernel) (stakeValue : Int) : CStakeKernel := { k with stakeValue }

theorem staking_getHash (crypto : Crypto) (k : CStakeKernel) (stakeValue : Int) :
    (k.staking stakeValue).getHash crypto = k.getHash crypto := rfl

end CStakeKernel

theorem nMaxMoneyOut_bounds (network : Network) : 0 ≤ network.consensus.nMaxMoneyOut ∧ network.consensus.nMaxMoneyOut < 2 ^ 63 := by
  cases network <;> decide

theorem weightedTarget_toNat (nonneg : 0 ≤ stakeValue) (bound : stakeValue < 2 ^ 63) :
    (weightedTarget nBits stakeValue).toNat = (setCompact nBits).toNat * (stakeValue / 100).toNat % 2 ^ 256 := by
  have same : stakeValue % 2 ^ 64 = stakeValue := Int.emod_eq_of_lt nonneg (by omega)
  have fits : stakeValue.toNat % 2 ^ 256 = stakeValue.toNat := Nat.mod_eq_of_lt (by omega)
  have hundred : (100 : uint256).toNat = 100 := rfl
  have quotient : (BitVec.ofNat 256 stakeValue.toNat / 100).toNat = (stakeValue / 100).toNat := by
    rw [BitVec.toNat_udiv, BitVec.toNat_ofNat, fits, hundred]
    omega
  unfold weightedTarget
  rw [same, BitVec.toNat_mul, quotient]

namespace Network

def MoreStakeHelps (network : Network) (nBits : BitVec 32) : Prop :=
  ∀ (crypto : Crypto) (k : CStakeKernel) (v w : Int), k.nBits = nBits → 0 ≤ v → v ≤ w → w ≤ network.consensus.nMaxMoneyOut →
    (k.staking v).checkKernelHash crypto = true → (k.staking w).checkKernelHash crypto = true

def WeightsWithoutWrapping (network : Network) (nBits : BitVec 32) : Prop :=
  ∀ v, 0 ≤ v → v ≤ network.consensus.nMaxMoneyOut →
    (weightedTarget nBits v).toNat = min ((setCompact nBits).toNat * (v / 100).toNat) (2 ^ 256 - 1)

end Network

def constantCrypto (hash : uint256) : Crypto where
  ripemd160 := id
  sha1 := id
  sha256 := fun _ => lowBytes 32 hash.toNat
  checkLowS := fun _ => true
  signatureHash := fun _ _ _ _ => 0
  verify := fun _ _ _ => true

theorem constantCrypto_getHash (hash : uint256) (k : CStakeKernel) : k.getHash (constantCrypto hash) = hash := by
  have value : k.getHash (constantCrypto hash) = BitVec.ofNat 256 (CScript.littleEndian (lowBytes 32 hash.toNat)) := rfl
  rw [value, littleEndian_lowBytes]
  apply BitVec.eq_of_toNat_eq
  have width : (256 : Nat) ^ 32 = 2 ^ 256 := by decide
  rw [BitVec.toNat_ofNat, width, Nat.mod_mod, Nat.mod_eq_of_lt hash.isLt]

theorem moreStakeHelps_iff_products {network : Network} :
    network.MoreStakeHelps nBits ↔ ∀ h v w, v ≤ w → w ≤ (network.consensus.nMaxMoneyOut / 100).toNat →
      h < (setCompact nBits).toNat * v % 2 ^ 256 → h < (setCompact nBits).toNat * w % 2 ^ 256 := by
  obtain ⟨nonneg, bound⟩ := nMaxMoneyOut_bounds network
  constructor
  · intro helps h v w ordered inside passes
    have small : h < 2 ^ 256 := Nat.lt_trans passes (Nat.mod_lt _ (by decide))
    have weight : ∀ n : Nat, n ≤ (network.consensus.nMaxMoneyOut / 100).toNat →
        (weightedTarget nBits (100 * n)).toNat = (setCompact nBits).toNat * n % 2 ^ 256 := by
      intro n below
      rw [weightedTarget_toNat (by omega) (by omega)]
      have divided : ((100 * n : Int) / 100).toNat = n := by omega
      rw [divided]
    have ask : ∀ n : Nat, n ≤ (network.consensus.nMaxMoneyOut / 100).toNat →
        (((CStakeKernel.mk [] 0 [] 0 nBits 0).staking (100 * n)).checkKernelHash (constantCrypto (BitVec.ofNat 256 h)) = true ↔
          h < (setCompact nBits).toNat * n % 2 ^ 256) := by
      intro n below
      rw [CStakeKernel.checkKernelHash_iff, constantCrypto_getHash, BitVec.lt_def, BitVec.toNat_ofNat, Nat.mod_eq_of_lt small,
        ← weight n below]
      rfl
    apply (ask w inside).mp
    apply helps _ (CStakeKernel.mk [] 0 [] 0 nBits 0) (100 * v) (100 * w) rfl (by omega) (by omega) (by omega)
    exact (ask v (by omega)).mpr passes
  · intro grows crypto k v w bits low ordered high passes
    rw [CStakeKernel.checkKernelHash_iff, CStakeKernel.staking_getHash, BitVec.lt_def] at passes ⊢
    have left := @weightedTarget_toNat nBits v low (by omega)
    have right := @weightedTarget_toNat nBits w (by omega) (by omega)
    have given : (k.getHash crypto).toNat < (weightedTarget nBits v).toNat := by rw [← bits]; exact passes
    have goal : (k.getHash crypto).toNat < (weightedTarget nBits w).toNat := by
      rw [right]
      apply grows _ (v / 100).toNat (w / 100).toNat (by omega) (by omega)
      rw [← left]
      exact given
    rw [← bits] at goal
    exact goal

theorem weightsWithoutWrapping_iff_products {network : Network} :
    network.WeightsWithoutWrapping nBits ↔ ∀ v, v ≤ (network.consensus.nMaxMoneyOut / 100).toNat →
      (setCompact nBits).toNat * v % 2 ^ 256 = min ((setCompact nBits).toNat * v) (2 ^ 256 - 1) := by
  obtain ⟨nonneg, bound⟩ := nMaxMoneyOut_bounds network
  constructor
  · intro weights v inside
    have divided : ((100 * v : Int) / 100).toNat = v := by omega
    have equal := weights (100 * v) (by omega) (by omega)
    rw [weightedTarget_toNat (by omega) (by omega), divided] at equal
    exact equal
  · intro capped v low high
    rw [weightedTarget_toNat low (by omega)]
    exact capped _ (by omega)

/-- More stake helps, and the weighted target is the true product, exactly for the targets whose product with the largest stake
stays below two to the power of 256. -/
theorem more_stake_helps_iff (network : Network) (nBits : BitVec 32) :
    (network.MoreStakeHelps nBits ↔ (setCompact nBits).toNat * (network.consensus.nMaxMoneyOut / 100).toNat < 2 ^ 256) ∧
      (network.WeightsWithoutWrapping nBits ↔
        (setCompact nBits).toNat * (network.consensus.nMaxMoneyOut / 100).toNat < 2 ^ 256) :=
  ⟨moreStakeHelps_iff_products.trans (products_grow_iff (setCompact nBits).isLt),
    weightsWithoutWrapping_iff_products.trans (products_capped_iff (setCompact nBits).isLt)⟩

def lastWorkBlocks : List WorkEntry :=
  [{ nHeight := 100, nTime := 6060, nBits := 0x1e0fffff }, { nHeight := 99, nTime := 6000, nBits := 0x1e0fffff }]

def unluckyKernel : CStakeKernel :=
  { stakeModifier := [], nTimeBlockFrom := 0, stakeUniqueness := [], nTime := 6120, nBits := 0x1e00ffff, stakeValue := 0 }

/-- With 16.777472 coins the kernel passes, with 16.777473 it does not. -/
theorem larger_stake_refused : getNextWorkRequired .main lastWorkBlocks = some unluckyKernel.nBits ∧
    (unluckyKernel.staking 1677747200).checkKernelHash (constantCrypto (65279 <<< 216)) = true ∧
    (unluckyKernel.staking 1677747300).checkKernelHash (constantCrypto (65279 <<< 216)) = false ∧
    (1677747300 : Int) ≤ Network.main.consensus.nMaxMoneyOut := by
  refine ⟨by decide, ?_, ?_, by decide⟩
  · rw [CStakeKernel.checkKernelHash_iff, constantCrypto_getHash]
    decide
  · rw [← Bool.not_eq_true, CStakeKernel.checkKernelHash_iff, constantCrypto_getHash]
    decide

end SchillingCoin
