import SchillingCoin.Stake.CompactTarget

/-!
The targets along a chain of the main network, after `GetNextWorkRequired` in `pow.cpp` and `CheckWork` in `main.cpp`: no target is zero
or above its limit, and where the products of the retargeting stay below two to the power of 256.
-/

namespace SchillingCoin

variable (network : Network) (g : GravityWave) (pindexLast pprev : WorkEntry) (nHeight n nTime : Nat)

/-- `CheckWork` under the block that comes first. `differs` is the comparison of two difficulties as floating point numbers, `none` a null
pointer that is read. -/
def checkWork (differs : BitVec 32 → BitVec 32 → Bool) (isProofOfWork : Bool) (nBits : BitVec 32) :
    List WorkEntry → Option Bool
  | [] => some false
  | pindexPrev :: ancestors =>
    (getNextWorkRequired network (pindexPrev :: ancestors)).map fun nBitsRequired =>
      if network ≠ .regtest ∧ isProofOfWork ∧ pindexPrev.nHeight + 1 ≤ 68589 then !differs nBits nBitsRequired
      else if nBits ≠ nBitsRequired then decide (pindexPrev.nHeight + 1 = network.consensus.height_last_PoW + 1)
      else true

def genesisEntry : WorkEntry := { nHeight := 0, nTime := 1540198678, nBits := 0x1e0ffff0 }

inductive WorkChain (differs : BitVec 32 → BitVec 32 → Bool) : List WorkEntry → Prop
  | genesis : WorkChain differs [genesisEntry]
  | next {prev b : WorkEntry} {rest : List WorkEntry} (hash : uint256) : WorkChain differs (prev :: rest) → b.nHeight = prev.nHeight + 1 →
      checkWork .main differs (decide (b.nHeight ≤ 100)) b.nBits (prev :: rest) = some true →
      (b.nHeight ≤ 100 → checkProofOfWork .main hash b.nBits = true) → WorkChain differs (b :: prev :: rest)

def GravityWave.clampedTimespan : Int :=
  let nTargetTimespan := g.countBlocks * nTargetSpacing
  let nActualTimespan := if g.nActualTimespan < nTargetTimespan / 3 then nTargetTimespan / 3 else g.nActualTimespan
  if nActualTimespan > nTargetTimespan * 3 then nTargetTimespan * 3 else nActualTimespan

def GravityWave.AddsUp (b : WorkEntry) : Prop :=
  g.countBlocks + 1 < 2 ^ 32 ∧ g.pastDifficultyAverage.toNat * (g.countBlocks + 1) + (setCompact b.nBits).toNat < 2 ^ 256

def GravityWave.Multiplies : Prop :=
  0 ≤ g.clampedTimespan ∧ g.clampedTimespan < 2 ^ 32 ∧ g.pastDifficultyAverage.toNat * g.clampedTimespan.toNat < 2 ^ 256

def stakeMultiplier : Int :=
  (60 * 40 / nTargetSpacing - 1) * nTargetSpacing + stakeSpacing network pindexLast pprev + stakeSpacing network pindexLast pprev

def stakeStart : Nat :=
  if network.consensus.isTimeProtocolV2 (pindexLast.nHeight + 1) ∧ !network.consensus.isTimeProtocolV2 pindexLast.nHeight then
    (setCompact pindexLast.nBits).toNat * 16
  else (setCompact pindexLast.nBits).toNat

def StakeMultiplies : Prop :=
  stakeStart network pindexLast < 2 ^ 256 ∧ 0 ≤ stakeMultiplier network pindexLast pprev ∧ stakeMultiplier network pindexLast pprev < 2 ^ 32 ∧
    stakeStart network pindexLast * (stakeMultiplier network pindexLast pprev).toNat < 2 ^ 256

def NoWrap : List WorkEntry → Prop
  | [] => True
  | pindexLast :: ancestors =>
    if pindexLast.nHeight ≥ network.consensus.height_last_PoW then ∀ pprev ∈ ancestors.head?, StakeMultiplies network pindexLast pprev
    else pindexLast.nHeight ≥ 24 →
      (∀ n b, n < 24 → (pindexLast :: ancestors)[n]? = some b → (GravityWave.readAll n {} (pindexLast :: ancestors)).AddsUp b) ∧
        (GravityWave.readAll 24 {} (pindexLast :: ancestors)).Multiplies

/-- The target of proof of stake before its limit is applied. -/
def stakeQuotient : uint256 :=
  (if network.consensus.isTimeProtocolV2 (pindexLast.nHeight + 1) ∧ !network.consensus.isTimeProtocolV2 pindexLast.nHeight then
      setCompact pindexLast.nBits <<< 4
    else setCompact pindexLast.nBits) *
    BitVec.ofNat 256 (stakeMultiplier network pindexLast pprev % 2 ^ 32).toNat /
    BitVec.ofNat 256 ((60 * 40 / nTargetSpacing + 1) * nTargetSpacing).toNat

theorem stakeRetarget_eq :
    stakeRetarget network pindexLast pprev =
      if stakeQuotient network pindexLast pprev = 0 ∨ stakeQuotient network pindexLast pprev > stakeTargetLimit then stakeTargetLimit
      else stakeQuotient network pindexLast pprev := rfl

theorem stakeTargetLimit_toNat : stakeTargetLimit.toNat = 2 ^ 232 - 1 := by decide

theorem powLimit_toNat : powLimit.toNat = 2 ^ 236 - 1 := by decide

theorem stakeRetarget_bounds :
    stakeRetarget network pindexLast pprev ≠ 0 ∧ (stakeRetarget network pindexLast pprev).toNat ≤ 2 ^ 232 - 1 := by
  rw [stakeRetarget_eq, ← stakeTargetLimit_toNat]
  split
  · exact ⟨by decide, le_refl _⟩
  · next inside =>
    obtain ⟨positive, small⟩ := not_or.mp inside
    exact ⟨positive, BitVec.not_lt.mp small⟩

theorem average_bounds {target n : Nat} (lowAverage : low ≤ average) (averageHigh : average ≤ high) (lowTarget : low ≤ target)
    (targetHigh : target ≤ high) : low ≤ (average * n + target) / (n + 1) ∧ (average * n + target) / (n + 1) ≤ high := by
  have below : low * n ≤ average * n := Nat.mul_le_mul_right n lowAverage
  have above : average * n ≤ high * n := Nat.mul_le_mul_right n averageHigh
  constructor
  · rw [Nat.le_div_iff_mul_le (by omega), Nat.mul_succ]
    omega
  · apply Nat.div_le_of_le_mul
    rw [Nat.succ_mul, Nat.mul_comm n high]
    omega

structure GravityWave.Within (low high : Nat) (g : GravityWave) : Prop where
  count : g.countBlocks ≤ 24
  average : g.countBlocks ≠ 0 → low ≤ g.pastDifficultyAverage.toNat ∧ g.pastDifficultyAverage.toNat ≤ high
  start : g.countBlocks = 0 → g.pastDifficultyAverage = 0

def WorkEntry.Between (low high : Nat) (b : WorkEntry) : Prop :=
  b.nHeight > 0 ∧ low ≤ (setCompact b.nBits).toNat ∧ (setCompact b.nBits).toNat ≤ high

namespace GravityWave

theorem within_empty (low high : Nat) : Within low high {} := ⟨by decide, fun some => absurd rfl some, fun _ => rfl⟩

theorem Within.addsUp {g : GravityWave} {b : WorkEntry} (within : g.Within low high) (high_lt : high < 2 ^ 240)
    (few : g.countBlocks < 24) (between : b.Between low high) : g.AddsUp b := by
  obtain ⟨_, lowTarget, targetHigh⟩ := between
  have sum : g.pastDifficultyAverage.toNat * (g.countBlocks + 1) ≤ 2 ^ 240 * 24 := by
    by_cases first : g.countBlocks = 0
    · have zero : (0 : uint256).toNat = 0 := rfl
      rw [within.start first, zero, Nat.zero_mul]
      exact Nat.zero_le _
    · have bound := (within.average first).2
      exact Nat.mul_le_mul (by omega) (by omega)
  exact ⟨by omega, by omega⟩

theorem Within.read {g : GravityWave} {b : WorkEntry} (within : g.Within low high) (high_lt : high < 2 ^ 240)
    (few : g.countBlocks < 24) (between : b.Between low high) : (g.read b).Within low high := by
  have fits := (within.addsUp high_lt few between).2
  obtain ⟨_, lowTarget, targetHigh⟩ := between
  have counted : (g.read b).countBlocks = g.countBlocks + 1 := rfl
  have value : (g.read b).pastDifficultyAverage = if g.countBlocks + 1 = 1 then setCompact b.nBits
      else (g.pastDifficultyAverage * BitVec.ofNat 256 (g.countBlocks + 1) + setCompact b.nBits) / BitVec.ofNat 256 (g.countBlocks + 1 + 1) := rfl
  refine ⟨by omega, fun _ => ?_, fun zero => absurd (counted.symm.trans zero) (by omega)⟩
  rw [value]
  by_cases first : g.countBlocks = 0
  · rw [if_pos (by omega)]
    exact ⟨lowTarget, targetHigh⟩
  · rw [if_neg (by omega)]
    obtain ⟨lowAverage, averageHigh⟩ := within.average first
    have product : g.pastDifficultyAverage.toNat * (g.countBlocks + 1) < 2 ^ 256 := by omega
    rw [BitVec.toNat_udiv, BitVec.toNat_add, BitVec.toNat_mul, BitVec.toNat_ofNat, BitVec.toNat_ofNat,
      Nat.mod_eq_of_lt (show g.countBlocks + 1 < 2 ^ 256 by omega), Nat.mod_eq_of_lt (show g.countBlocks + 1 + 1 < 2 ^ 256 by omega),
      Nat.mod_eq_of_lt product, Nat.mod_eq_of_lt fits]
    exact average_bounds lowAverage averageHigh lowTarget targetHigh

theorem readAll_within {low high : Nat} (high_lt : high < 2 ^ 240) (n : Nat) (g : GravityWave) (l : List WorkEntry)
    (within : g.Within low high) (few : g.countBlocks + n ≤ 24) (long : n ≤ l.length) (between : ∀ b ∈ l.take n, b.Between low high) :
    (readAll n g l).Within low high ∧ (readAll n g l).countBlocks = g.countBlocks + n := by
  induction n generalizing g l with
  | zero =>
    have same : readAll 0 g l = g := by cases l <;> rfl
    rw [same]
    exact ⟨within, rfl⟩
  | succ n ih =>
    cases l with
    | nil => exact absurd long (by simp)
    | cons b rest =>
      have first : b.Between low high := between b (by simp)
      have later : ∀ c ∈ rest.take n, c.Between low high := by
        intro c member
        exact between c (by simp [member])
      have counted : (g.read b).countBlocks = g.countBlocks + 1 := rfl
      rw [readAll, if_pos first.1]
      have next := ih (g.read b) rest (within.read high_lt (by omega) first) (by omega) (by simpa using long) later
      rw [counted] at next
      exact ⟨next.1, by omega⟩

theorem Within.retarget_bounds {high : Nat} {g : GravityWave} (within : g.Within low high) (high_lt : high < 2 ^ 240)
    (full : g.countBlocks = 24) : g.Multiplies ∧ min (low / 3) (2 ^ 236 - 1) ≤ g.retarget.toNat ∧ g.retarget.toNat ≤ 2 ^ 236 - 1 := by
  obtain ⟨lowAverage, averageHigh⟩ := within.average (by omega)
  have timespan : (g.countBlocks : Int) * nTargetSpacing = 1440 := by rw [full]; rfl
  have clamped : 480 ≤ g.clampedTimespan ∧ g.clampedTimespan ≤ 4320 := by
    unfold clampedTimespan
    dsimp only
    rw [timespan]
    split <;> split <;> omega
  have product : g.pastDifficultyAverage.toNat * g.clampedTimespan.toNat ≤ 2 ^ 240 * 4320 := Nat.mul_le_mul (by omega) (by omega)
  have fits : g.Multiplies := ⟨by omega, by omega, by omega⟩
  have third : low / 3 ≤ g.pastDifficultyAverage.toNat * g.clampedTimespan.toNat / 1440 := by
    rw [Nat.le_div_iff_mul_le (by decide)]
    calc low / 3 * 1440 = low / 3 * 3 * 480 := by rw [Nat.mul_assoc]
      _ ≤ low * 480 := Nat.mul_le_mul_right _ (Nat.div_mul_le_self _ _)
      _ ≤ g.pastDifficultyAverage.toNat * g.clampedTimespan.toNat := Nat.mul_le_mul lowAverage (by omega)
  have value : g.retarget = if g.pastDifficultyAverage * BitVec.ofNat 256 (g.clampedTimespan % 2 ^ 32).toNat /
        BitVec.ofNat 256 ((g.countBlocks : Int) * nTargetSpacing).toNat > powLimit then powLimit
      else g.pastDifficultyAverage * BitVec.ofNat 256 (g.clampedTimespan % 2 ^ 32).toNat /
        BitVec.ofNat 256 ((g.countBlocks : Int) * nTargetSpacing).toNat := rfl
  have quotient : (g.pastDifficultyAverage * BitVec.ofNat 256 (g.clampedTimespan % 2 ^ 32).toNat /
      BitVec.ofNat 256 ((g.countBlocks : Int) * nTargetSpacing).toNat).toNat = g.pastDifficultyAverage.toNat * g.clampedTimespan.toNat / 1440 := by
    rw [timespan, BitVec.toNat_udiv, BitVec.toNat_mul, BitVec.toNat_ofNat, Int.emod_eq_of_lt fits.1 fits.2.1,
      Nat.mod_eq_of_lt (show g.clampedTimespan.toNat < 2 ^ 256 by omega), Nat.mod_eq_of_lt fits.2.2]
    rfl
  refine ⟨fits, ?_⟩
  rw [value]
  split
  · rw [powLimit_toNat]
    exact ⟨Nat.min_le_right _ _, le_refl _⟩
  · next inside =>
    have small := BitVec.not_lt.mp inside
    rw [BitVec.le_def, quotient, powLimit_toNat] at small
    rw [quotient]
    exact ⟨(Nat.min_le_left _ _).trans third, small⟩

end GravityWave

/-- What is left of the largest target of proof of work at a height, when each block from the 25th on has up to eight times the difficulty
of its predecessor. -/
def lowerTarget : Nat := 2 ^ (234 - 3 * (nHeight - 24))

theorem lowerTarget_anti (ordered : a ≤ b) : lowerTarget b ≤ lowerTarget a := Nat.pow_le_pow_right (by decide) (by omega)

structure InRange (share nHeight : Nat) (nBits : BitVec 32) : Prop where
  negative : compactNegative nBits = false
  overflow : compactOverflow nBits = false
  positive : setCompact nBits ≠ 0
  work : nHeight ≤ 100 → share * lowerTarget nHeight ≤ (setCompact nBits).toNat ∧ (setCompact nBits).toNat ≤ 2 ^ 236 - 1
  stake : 100 < nHeight → (setCompact nBits).toNat ≤ 2 ^ 232 - 1

theorem InRange.of_compact {nHeight : Nat} {n : uint256} (positive : n ≠ 0)
    (work : nHeight ≤ 100 → share * lowerTarget nHeight ≤ 2 ^ n.toNat.log2 ∧ n.toNat ≤ 2 ^ 236 - 1)
    (stake : 100 < nHeight → n.toNat ≤ 2 ^ 232 - 1) : InRange share nHeight (compactBits n) := by
  obtain ⟨less, least, negative, overflow⟩ := compactBits_spec positive
  have nonzero : setCompact (compactBits n) ≠ 0 := by
    intro zero
    have value : (setCompact (compactBits n)).toNat = 0 := by rw [zero]; rfl
    have power : 0 < 2 ^ n.toNat.log2 := Nat.two_pow_pos _
    omega
  refine ⟨negative, overflow, nonzero, fun early => ?_, fun late => less.trans (stake late)⟩
  obtain ⟨low, high⟩ := work early
  exact ⟨low.trans least, less.trans high⟩

namespace WorkChain

variable {differs : BitVec 32 → BitVec 32 → Bool}

theorem height {b : WorkEntry} {rest : List WorkEntry} (chain : WorkChain differs (b :: rest)) : b.nHeight = rest.length := by
  induction rest generalizing b with
  | nil => cases chain; rfl
  | cons prev rest ih =>
    cases chain with
    | next hash before above => rw [above, ih before, List.length_cons]

theorem height_at (chain : WorkChain differs l) (i : Nat) (b : WorkEntry) (at_i : l[i]? = some b) :
    b.nHeight + i + 1 = l.length := by
  induction chain generalizing i with
  | genesis =>
    cases i with
    | zero =>
      obtain rfl := Option.some.inj at_i
      rfl
    | succ i => exact absurd at_i (by simp)
  | @next prev c rest hash before above work proof ih =>
    cases i with
    | zero =>
      obtain rfl := Option.some.inj at_i
      rw [above, before.height, List.length_cons, List.length_cons]
    | succ i =>
      have earlier := ih i at_i
      rw [List.length_cons]
      omega

end WorkChain

/-- Targets whose difficulties do not differ by more than half of the first: the second is at most twice the first, up to the rounding of
the smallest ones. -/
def AtMostTwice (differs : BitVec 32 → BitVec 32 → Bool) : Prop :=
  ∀ nBits nBitsRequired, compactNegative nBits = false → compactOverflow nBits = false → setCompact nBits ≠ 0 →
    compactNegative nBitsRequired = false → compactOverflow nBitsRequired = false → setCompact nBitsRequired ≠ 0 →
    differs nBits nBitsRequired = false → (setCompact nBitsRequired).toNat ≤ 2 * (setCompact nBits).toNat + 1

variable {differs : BitVec 32 → BitVec 32 → Bool} {pindexLast : WorkEntry} {ancestors : List WorkEntry}

theorem between_of_chain (chain : WorkChain differs (pindexLast :: ancestors)) (ranges : ∀ b ∈ pindexLast :: ancestors, b.nHeight ≠ 101 → InRange 1 b.nHeight b.nBits)
    (above : 24 ≤ pindexLast.nHeight) (below : pindexLast.nHeight < 100) :
    ∀ b ∈ (pindexLast :: ancestors).take 24, b.Between (lowerTarget pindexLast.nHeight) (2 ^ 236 - 1) := by
  intro b member
  obtain ⟨i, at_i⟩ := List.mem_iff_getElem?.mp member
  have early : i < 24 := by
    by_contra late
    rw [List.getElem?_take, if_neg late] at at_i
    cases at_i
  rw [List.getElem?_take, if_pos early] at at_i
  have height := chain.height_at i b at_i
  have last := chain.height
  rw [List.length_cons] at height
  obtain ⟨low, high⟩ := (ranges b (List.mem_of_getElem? at_i) (by omega)).work (by omega)
  have least : lowerTarget pindexLast.nHeight ≤ lowerTarget b.nHeight := lowerTarget_anti (by omega)
  exact ⟨by omega, by omega, high⟩

theorem getNextWorkRequired_main (pindexLast : WorkEntry) (ancestors : List WorkEntry) :
    getNextWorkRequired .main (pindexLast :: ancestors) =
      if pindexLast.nHeight = 0 ∨ pindexLast.nHeight < 24 then some (compactBits powLimit)
      else if pindexLast.nHeight ≥ 100 then ancestors.head?.map fun pprev => compactBits (stakeRetarget .main pindexLast pprev)
      else some (compactBits (GravityWave.readAll 24 {} (pindexLast :: ancestors)).retarget) := rfl

theorem required_inRange (chain : WorkChain differs (pindexLast :: ancestors)) (ranges : ∀ b ∈ pindexLast :: ancestors, b.nHeight ≠ 101 → InRange 1 b.nHeight b.nBits) :
    ∃ nBits, getNextWorkRequired .main (pindexLast :: ancestors) = some nBits ∧ InRange 2 (pindexLast.nHeight + 1) nBits := by
  have last := chain.height
  rw [getNextWorkRequired_main]
  by_cases few : pindexLast.nHeight = 0 ∨ pindexLast.nHeight < 24
  · rw [if_pos few]
    refine ⟨_, rfl, InRange.of_compact (by decide) (fun _ => ?_) (by omega)⟩
    have lower : lowerTarget (pindexLast.nHeight + 1) = 2 ^ 234 := by
      unfold lowerTarget
      rw [show pindexLast.nHeight + 1 - 24 = 0 by omega]
    rw [lower, powLimit_toNat]
    decide
  · rw [if_neg few]
    by_cases stake : pindexLast.nHeight ≥ 100
    · rw [if_pos stake]
      cases ancestors with
      | nil => exact absurd last (by simp; omega)
      | cons pprev rest =>
        obtain ⟨positive, small⟩ := stakeRetarget_bounds .main pindexLast pprev
        exact ⟨_, rfl, InRange.of_compact positive (by omega) (fun _ => small)⟩
    · rw [if_neg stake]
      have start := GravityWave.within_empty (lowerTarget pindexLast.nHeight) (2 ^ 236 - 1)
      obtain ⟨within, full⟩ := GravityWave.readAll_within (by decide) 24 {} (pindexLast :: ancestors) start (by decide)
        (by rw [List.length_cons]; omega) (between_of_chain chain ranges (by omega) (by omega))
      obtain ⟨_, low, high⟩ := within.retarget_bounds (by decide) full
      -- A third of a power of two is at least a quarter of it, and the compact form keeps that power.
      have split : lowerTarget pindexLast.nHeight = 8 * lowerTarget (pindexLast.nHeight + 1) := by
        unfold lowerTarget
        rw [show 234 - 3 * (pindexLast.nHeight - 24) = 234 - 3 * (pindexLast.nHeight + 1 - 24) + 3 by omega, pow_add, Nat.mul_comm]
        rfl
      have bound : lowerTarget (pindexLast.nHeight + 1) ≤ 2 ^ 234 := Nat.pow_le_pow_right (by decide) (by omega)
      have atLeast : 2 * lowerTarget (pindexLast.nHeight + 1) ≤ (GravityWave.readAll 24 {} (pindexLast :: ancestors)).retarget.toNat := by
        refine le_trans (le_min ?_ ?_) low
        · omega
        · omega
      have double : 2 * lowerTarget (pindexLast.nHeight + 1) = 2 ^ (235 - 3 * (pindexLast.nHeight + 1 - 24)) := by
        unfold lowerTarget
        rw [← pow_succ']
        congr 1
        omega
      have power : 0 < lowerTarget (pindexLast.nHeight + 1) := Nat.two_pow_pos _
      have nonzero : (GravityWave.readAll 24 {} (pindexLast :: ancestors)).retarget.toNat ≠ 0 := by omega
      refine ⟨_, rfl, InRange.of_compact (fun zero => nonzero (congrArg BitVec.toNat zero)) (fun _ => ⟨?_, high⟩) (by omega)⟩
      rw [double] at atLeast ⊢
      exact Nat.pow_le_pow_right (by decide) ((Nat.le_log2 nonzero).mpr atLeast)

theorem checkWork_main (required : getNextWorkRequired .main (pindexPrev :: ancestors) = some nBitsRequired) :
    checkWork .main differs isProofOfWork nBits (pindexPrev :: ancestors) =
      some (if isProofOfWork ∧ pindexPrev.nHeight + 1 ≤ 68589 then !differs nBits nBitsRequired
        else if nBits ≠ nBitsRequired then decide (pindexPrev.nHeight + 1 = 101) else true) := by
  have main : Network.main ≠ .regtest := by decide
  have lastWork : Network.main.consensus.height_last_PoW + 1 = 101 := rfl
  unfold checkWork
  dsimp only
  rw [required, lastWork]
  simp only [main, ne_eq, not_false_eq_true, true_and, Option.map_some]

theorem checkProofOfWork_main {hash : uint256} (proof : checkProofOfWork .main hash nBits = true) :
    compactNegative nBits = false ∧ compactOverflow nBits = false ∧ setCompact nBits ≠ 0 ∧ (setCompact nBits).toNat ≤ 2 ^ 236 - 1 := by
  unfold checkProofOfWork at proof
  rw [if_neg (by decide)] at proof
  dsimp only at proof
  split at proof
  · cases proof
  · next inside =>
    simp only [Bool.or_eq_true, decide_eq_true_eq, not_or, Bool.not_eq_true] at inside
    obtain ⟨⟨⟨negative, positive⟩, overflow⟩, small⟩ := inside
    have limit := BitVec.not_lt.mp small
    rw [BitVec.le_def, powLimit_toNat] at limit
    exact ⟨negative, overflow, positive, limit⟩

theorem WorkChain.inRange (close : AtMostTwice differs) (chain : WorkChain differs l) :
    ∀ b ∈ l, b.nHeight ≠ 101 → InRange 1 b.nHeight b.nBits := by
  induction chain with
  | genesis =>
    intro b member _
    obtain rfl := List.mem_singleton.mp member
    exact ⟨by decide, by decide, by decide, by decide, by decide⟩
  | @next prev b rest hash before above work proof ih =>
    obtain ⟨nBitsRequired, required, range⟩ := required_inRange before ih
    rw [← above] at range
    intro c member other
    rcases List.mem_cons.mp member with rfl | earlier
    · rw [checkWork_main required, ← above] at work
      have accepted := Option.some.inj work
      by_cases early : c.nHeight ≤ 100
      · obtain ⟨negative, overflow, positive, small⟩ := checkProofOfWork_main (proof early)
        rw [if_pos ⟨decide_eq_true early, by omega⟩, Bool.not_eq_true'] at accepted
        have twice := close _ _ negative overflow positive range.negative range.overflow range.positive accepted
        obtain ⟨low, _⟩ := range.work early
        exact ⟨negative, overflow, positive, fun _ => ⟨by omega, small⟩, by omega⟩
      · have same : c.nBits = nBitsRequired := by
          rw [if_neg (by simp [early])] at accepted
          by_contra different
          rw [if_pos different, decide_eq_true_eq] at accepted
          exact other accepted
        rw [same]
        exact ⟨range.negative, range.overflow, range.positive, by omega, range.stake⟩
    · exact ih c earlier other

def largestSpacing : Int := if nHeight = 100 then 523118 else 2 ^ 23 - 1042

def SwitchesAsRequired : List WorkEntry → Prop
  | [] => True
  | b :: rest => b.nHeight = network.consensus.height_last_PoW + 1 → getNextWorkRequired network rest = some b.nBits

theorem stakeSpacing_bounds {pprev : WorkEntry} (spaced : (pindexLast.nTime : Int) - pprev.nTime ≤ largestSpacing pindexLast.nHeight) :
    0 ≤ stakeSpacing .main pindexLast pprev ∧ stakeSpacing .main pindexLast pprev ≤ largestSpacing pindexLast.nHeight ∧
      (pindexLast.nHeight + 1 ≥ 1040000 → stakeSpacing .main pindexLast pprev ≤ 600) := by
  have timeV2 : Network.main.consensus.isTimeProtocolV2 (pindexLast.nHeight + 1) = decide (pindexLast.nHeight + 1 ≥ 1040000) := rfl
  have slots : nTargetSpacing * 10 = 600 := rfl
  have least : 523118 ≤ largestSpacing pindexLast.nHeight := by
    unfold largestSpacing
    split <;> omega
  unfold stakeSpacing
  dsimp only
  rw [timeV2, slots]
  simp only [decide_eq_true_eq]
  split <;> split <;> split <;> omega

theorem stakeMultiplies_of_range {pprev : WorkEntry} (range : InRange 1 pindexLast.nHeight pindexLast.nBits)
    (stake : 100 ≤ pindexLast.nHeight) (spaced : (pindexLast.nTime : Int) - pprev.nTime ≤ largestSpacing pindexLast.nHeight) :
    StakeMultiplies .main pindexLast pprev := by
  obtain ⟨nonneg, short, slotted⟩ := stakeSpacing_bounds spaced
  have multiplier : stakeMultiplier .main pindexLast pprev = 2340 + 2 * stakeSpacing .main pindexLast pprev := by
    unfold stakeMultiplier
    rw [show (60 * 40 / nTargetSpacing - 1) * nTargetSpacing = 2340 from rfl]
    omega
  have switch : ∀ h : Nat, Network.main.consensus.isTimeProtocolV2 h = decide (h ≥ 1040000) := fun _ => rfl
  have bound : largestSpacing pindexLast.nHeight ≤ 2 ^ 23 - 1042 := by
    unfold largestSpacing
    split <;> omega
  by_cases early : pindexLast.nHeight = 100
  · -- The last block of proof of work may have the largest target of all.
    have small := (range.work (by omega)).2
    have gap := setCompact_gap pindexLast.nBits (k := 236) (by decide) (by omega)
    have start : stakeStart .main pindexLast = (setCompact pindexLast.nBits).toNat := by
      unfold stakeStart
      rw [early]
      rfl
    rw [largestSpacing, if_pos early] at short
    have product : (setCompact pindexLast.nBits).toNat * (stakeMultiplier .main pindexLast pprev).toNat ≤ (2 ^ 236 - 2 ^ 216) * 2 ^ 20 :=
      Nat.mul_le_mul (by omega) (by omega)
    exact ⟨by rw [start]; omega, by omega, by omega, by rw [start]; omega⟩
  · have small := range.stake (by omega)
    have gap := setCompact_gap pindexLast.nBits (k := 232) (by decide) (by omega)
    by_cases second : pindexLast.nHeight + 1 ≥ 1040000
    · have slot := slotted second
      have start : stakeStart .main pindexLast ≤ 2 ^ 236 := by
        unfold stakeStart
        split <;> omega
      have product : stakeStart .main pindexLast * (stakeMultiplier .main pindexLast pprev).toNat ≤ 2 ^ 236 * 2 ^ 12 :=
        Nat.mul_le_mul start (by omega)
      exact ⟨by omega, by omega, by omega, by omega⟩
    · have start : stakeStart .main pindexLast = (setCompact pindexLast.nBits).toNat := by
        unfold stakeStart
        rw [if_neg]
        rw [switch, decide_eq_true_eq]
        exact fun both => second both.1
      have product : (setCompact pindexLast.nBits).toNat * (stakeMultiplier .main pindexLast pprev).toNat ≤
          (2 ^ 232 - 2 ^ 216) * (2 ^ 24 + 256) := Nat.mul_le_mul (by omega) (by omega)
      exact ⟨by rw [start]; omega, by omega, by omega, by rw [start]; omega⟩

theorem first_inRange (chain : WorkChain differs (pindexLast :: ancestors)) (ranges : ∀ b ∈ pindexLast :: ancestors, b.nHeight ≠ 101 → InRange 1 b.nHeight b.nBits)
    (first : pindexLast.nHeight = 101) (switch : getNextWorkRequired .main ancestors = some pindexLast.nBits) : InRange 1 101 pindexLast.nBits := by
  cases chain with
  | genesis => exact absurd first (by decide)
  | @next prev _ rest hash before above work proof =>
    obtain ⟨nBits, required, range⟩ := required_inRange before (fun b member => ranges b (List.mem_cons_of_mem _ member))
    rw [← above, first] at range
    rw [Option.some.inj (switch.symm.trans required)]
    exact ⟨range.negative, range.overflow, range.positive, by omega, range.stake⟩

theorem noWrap_of_range (chain : WorkChain differs (pindexLast :: ancestors)) (ranges : ∀ b ∈ pindexLast :: ancestors, b.nHeight ≠ 101 → InRange 1 b.nHeight b.nBits)
    (switch : SwitchesAsRequired .main (pindexLast :: ancestors))
    (spaced : 100 ≤ pindexLast.nHeight →
      ∀ pprev ∈ ancestors.head?, (pindexLast.nTime : Int) - pprev.nTime ≤ largestSpacing pindexLast.nHeight) :
    NoWrap .main (pindexLast :: ancestors) := by
  have lastWork : Network.main.consensus.height_last_PoW = 100 := rfl
  have last := chain.height
  unfold NoWrap
  dsimp only
  rw [lastWork]
  by_cases stake : pindexLast.nHeight ≥ 100
  · rw [if_pos stake]
    intro pprev parent
    have own : InRange 1 pindexLast.nHeight pindexLast.nBits := by
      by_cases first : pindexLast.nHeight = 101
      · rw [first]
        exact first_inRange chain ranges first (switch first)
      · exact ranges pindexLast (by simp) first
    exact stakeMultiplies_of_range own stake (spaced stake pprev parent)
  · rw [if_neg stake]
    intro many
    have between := between_of_chain chain ranges many (by omega)
    have start := GravityWave.within_empty (lowerTarget pindexLast.nHeight) (2 ^ 236 - 1)
    have read : ∀ n, n ≤ 24 → (GravityWave.readAll n {} (pindexLast :: ancestors)).Within (lowerTarget pindexLast.nHeight) (2 ^ 236 - 1) ∧
        (GravityWave.readAll n {} (pindexLast :: ancestors)).countBlocks = n := by
      intro n few
      have part : ∀ b ∈ (pindexLast :: ancestors).take n, b.Between (lowerTarget pindexLast.nHeight) (2 ^ 236 - 1) :=
        fun b member => between b (List.take_subset_take_left _ few member)
      obtain ⟨within, count⟩ := GravityWave.readAll_within (by decide) n {} (pindexLast :: ancestors) start (by dsimp only; omega)
        (by rw [List.length_cons]; omega) part
      exact ⟨within, count.trans (Nat.zero_add n)⟩
    constructor
    · intro n b few at_n
      obtain ⟨within, count⟩ := read n (by omega)
      have member : b ∈ (pindexLast :: ancestors).take 24 := by
        apply List.mem_of_getElem? (i := n)
        rw [List.getElem?_take, if_pos few]
        exact at_n
      exact within.addsUp (by decide) (by omega) (between b member)
    · obtain ⟨within, full⟩ := read 24 (le_refl _)
      exact (within.retarget_bounds (by decide) full).1

/-- The next target of a chain of the main network is positive and within its limit whatever the times, and the work of a block is counted if
its bits are those required or were compared with them. -/
theorem getNextWorkRequired_in_range (close : AtMostTwice differs) (chain : WorkChain differs (pindexLast :: ancestors)) :
    (∃ nBits, getNextWorkRequired .main (pindexLast :: ancestors) = some nBits ∧ setCompact nBits ≠ 0 ∧
      setCompact nBits ≤ (if pindexLast.nHeight < 100 then powLimit else stakeTargetLimit) ∧ getBlockProof nBits ≠ 0) ∧
    (∀ b ∈ pindexLast :: ancestors, b.nHeight ≠ 101 → getBlockProof b.nBits ≠ 0) ∧
    (SwitchesAsRequired .main (pindexLast :: ancestors) →
      (100 ≤ pindexLast.nHeight →
        ∀ pprev ∈ ancestors.head?, (pindexLast.nTime : Int) - pprev.nTime ≤ largestSpacing pindexLast.nHeight) →
      NoWrap .main (pindexLast :: ancestors)) := by
  have ranges := chain.inRange close
  obtain ⟨nBits, required, range⟩ := required_inRange chain ranges
  refine ⟨⟨nBits, required, range.positive, ?_, getBlockProof_ne_zero range.positive range.negative range.overflow⟩, ?_, ?_⟩
  · rw [BitVec.le_def]
    split
    · rw [powLimit_toNat]
      exact (range.work (by omega)).2
    · rw [stakeTargetLimit_toNat]
      exact range.stake (by omega)
  · intro b member other
    have own := ranges b member other
    exact getBlockProof_ne_zero own.positive own.negative own.overflow
  · exact noWrap_of_range chain ranges

/-- The comparison of `CheckWork` without rounding. -/
def exactlyDiffers (nBits nBitsRequired : BitVec 32) : Bool :=
  2 * (setCompact nBits).toNat < (setCompact nBitsRequired).toNat || 3 * (setCompact nBitsRequired).toNat < 2 * (setCompact nBits).toNat

theorem exactlyDiffers_atMostTwice : AtMostTwice exactlyDiffers := by
  intro nBits nBitsRequired _ _ _ _ _ _ same
  unfold exactlyDiffers at same
  simp only [Bool.or_eq_false_iff, decide_eq_false_iff_not] at same
  omega

def steadyEntry : WorkEntry := { nHeight, nTime := 1540198678 + 180 * nHeight, nBits := 0x1e0fffff }

def steadyChain : Nat → List WorkEntry
  | 0 => [genesisEntry]
  | n + 1 => steadyEntry (n + 1) :: steadyChain n

theorem steadyChain_length : (steadyChain n).length = n + 1 := by
  induction n with
  | zero => rfl
  | succ n ih => rw [steadyChain, List.length_cons, ih]

theorem steadyChain_take {n : Nat} (few : k ≤ n) : ∀ b ∈ (steadyChain n).take k, ∃ h, b = steadyEntry (h + 1) := by
  induction k generalizing n with
  | zero =>
    intro b member
    exact absurd member (by simp)
  | succ k ih =>
    cases n with
    | zero => exact absurd few (by omega)
    | succ n =>
      intro b member
      rw [steadyChain, List.take_succ_cons] at member
      rcases List.mem_cons.mp member with rfl | earlier
      · exact ⟨n, rfl⟩
      · exact ih (by omega) b earlier

theorem readAll_steady {n : Nat} (few : k ≤ n) (g : GravityWave) (last : g.lastBlockTime = 1540198678 + 180 * (n + 1)) :
    (GravityWave.readAll k g (steadyChain n)).nActualTimespan = g.nActualTimespan + 180 * k := by
  induction k generalizing n g with
  | zero =>
    have same : GravityWave.readAll 0 g (steadyChain n) = g := by cases steadyChain n <;> rfl
    rw [same]
    omega
  | succ k ih =>
    cases n with
    | zero => exact absurd few (by omega)
    | succ n =>
      have positive : (steadyEntry (n + 1)).nHeight > 0 := Nat.succ_pos n
      rw [steadyChain, GravityWave.readAll, if_pos positive, ih (by omega) _ rfl]
      have span : (g.read (steadyEntry (n + 1))).nActualTimespan = g.nActualTimespan + 180 := by
        have later : g.lastBlockTime > 0 := by omega
        have time : (steadyEntry (n + 1)).nTime = 1540198678 + 180 * (n + 1) := rfl
        unfold GravityWave.read
        dsimp only
        rw [if_pos later, last, time]
        omega
      rw [span]
      omega

theorem steadyChain_required (early : n < 100) : getNextWorkRequired .main (steadyChain n) = some 0x1e0fffff := by
  cases n with
  | zero => decide
  | succ n =>
    have height : (steadyEntry (n + 1)).nHeight = n + 1 := rfl
    rw [steadyChain, getNextWorkRequired_main, height]
    by_cases few : n + 1 = 0 ∨ n + 1 < 24
    · rw [if_pos few]
      decide
    · rw [if_neg few, if_neg (by omega), ← steadyChain]
      have target : (setCompact 0x1e0fffff).toNat = 2 ^ 236 - 2 ^ 216 := by decide
      have start := GravityWave.within_empty (2 ^ 236 - 2 ^ 216) (2 ^ 236 - 2 ^ 216)
      have between : ∀ b ∈ (steadyChain (n + 1)).take 24, b.Between (2 ^ 236 - 2 ^ 216) (2 ^ 236 - 2 ^ 216) := by
        intro b member
        obtain ⟨h, rfl⟩ := steadyChain_take (by omega) b member
        exact ⟨Nat.succ_pos h, target.ge, target.le⟩
      obtain ⟨within, full⟩ := GravityWave.readAll_within (by decide) 24 {} (steadyChain (n + 1)) start (by decide)
        (by rw [steadyChain_length]; omega) between
      have timespan : (GravityWave.readAll 24 {} (steadyChain (n + 1))).nActualTimespan = 4140 := by
        have positive : (steadyEntry (n + 1)).nHeight > 0 := Nat.succ_pos n
        rw [steadyChain, GravityWave.readAll, if_pos positive, readAll_steady (by omega) _ rfl]
        rfl
      obtain ⟨low, high⟩ := within.average (by omega)
      have average : (GravityWave.readAll 24 {} (steadyChain (n + 1))).pastDifficultyAverage = setCompact 0x1e0fffff :=
        BitVec.eq_of_toNat_eq (by omega)
      generalize GravityWave.readAll 24 {} (steadyChain (n + 1)) = g at full timespan average
      obtain ⟨count, span, lastTime, mean⟩ := g
      dsimp only at full timespan average
      subst full timespan average
      have timeless : (GravityWave.mk (0 + 24) 4140 lastTime (setCompact 0x1e0fffff)).retarget =
          (GravityWave.mk 24 4140 0 (setCompact 0x1e0fffff)).retarget := rfl
      rw [timeless]
      decide

theorem next_steady {n : Nat} (early : n < 100) (nTime : Nat) (chain : WorkChain exactlyDiffers (steadyChain n)) :
    WorkChain exactlyDiffers ({ nHeight := n + 1, nTime, nBits := 0x1e0fffff } :: steadyChain n) := by
  have required := steadyChain_required n early
  have length := steadyChain_length n
  have same : exactlyDiffers 0x1e0fffff 0x1e0fffff = false := by decide
  have proof : checkProofOfWork .main 0 0x1e0fffff = true := by decide
  generalize steadyChain n = l at chain required length
  cases l with
  | nil => cases chain
  | cons prev rest =>
    have height : prev.nHeight = n := by
      rw [chain.height]
      exact Nat.succ.inj length
    refine .next 0 chain (by rw [height]) ?_ (fun _ => proof)
    rw [checkWork_main required, height, if_pos ⟨decide_eq_true (show n + 1 ≤ 100 by omega), by omega⟩, same]
    rfl

theorem steadyChain_workChain (early : n ≤ 100) : WorkChain exactlyDiffers (steadyChain n) := by
  induction n with
  | zero => exact .genesis
  | succ n ih => exact next_steady (by omega) _ (ih (by omega))

theorem steadyChain_in_range :
    (∃ nBits, getNextWorkRequired .main (steadyChain 100) = some nBits ∧ setCompact nBits ≠ 0 ∧ setCompact nBits ≤ stakeTargetLimit ∧
      getBlockProof nBits ≠ 0) ∧
    (∀ b ∈ steadyChain 100, b.nHeight ≠ 101 → getBlockProof b.nBits ≠ 0) ∧ NoWrap .main (steadyChain 100) := by
  obtain ⟨next, counted, fits⟩ := getNextWorkRequired_in_range exactlyDiffers_atMostTwice (steadyChain_workChain 100 (le_refl _))
  refine ⟨next, counted, fits (fun first => absurd first (by decide)) ?_⟩
  intro _ pprev parent
  obtain rfl := Option.some.inj parent
  decide

def lateChain : List WorkEntry :=
  { nHeight := 100, nTime := (steadyEntry 99).nTime + 523119, nBits := 0x1e0fffff } :: steadyChain 99

def SpacedBelow (seconds : Int) (l : List WorkEntry) : Prop :=
  l.IsChain fun b pprev => ((b.nTime : Int) - pprev.nTime).natAbs < seconds

theorem steadyChain_spaced : SpacedBelow (2 ^ 23) (steadyChain n) := by
  unfold SpacedBelow
  induction n with
  | zero => exact .singleton _
  | succ n ih =>
    cases n with
    | zero => decide
    | succ n =>
      refine .cons_cons ?_ ih
      have later : (steadyEntry (n + 1 + 1)).nTime = 1540198678 + 180 * (n + 1 + 1) := rfl
      have before : (steadyEntry (n + 1)).nTime = 1540198678 + 180 * (n + 1) := rfl
      rw [later, before]
      omega

def switchChain : List WorkEntry :=
  { nHeight := 101, nTime := (steadyEntry 101).nTime, nBits := 0x2180ffff } :: steadyChain 100

theorem switchChain_workChain : WorkChain exactlyDiffers switchChain := by
  have before : WorkChain exactlyDiffers (steadyEntry 100 :: steadyChain 99) := steadyChain_workChain 100 (le_refl _)
  obtain ⟨nBitsRequired, required, _⟩ := required_inRange before (before.inRange exactlyDiffers_atMostTwice)
  refine .next 0 before rfl ?_ (fun early => absurd early (by decide))
  have height : (steadyEntry 100).nHeight + 1 = 101 := rfl
  rw [checkWork_main required, height, if_neg (by simp)]
  split <;> rfl

/-- A first block of proof of stake with the bits required. -/
def stakeChain : List WorkEntry := { nHeight := 101, nTime, nBits := 0x1e00ffff } :: steadyChain 100

theorem stakeChain_workChain : WorkChain exactlyDiffers (stakeChain nTime) := by
  have required : getNextWorkRequired .main (steadyEntry 100 :: steadyChain 99) = some 0x1e00ffff := by decide
  have late : ¬(101 : Nat) ≤ 100 := by decide
  refine .next 0 (steadyChain_workChain 100 (le_refl _)) rfl ?_ (fun early => absurd early late)
  rw [checkWork_main required, if_neg (by simp), if_neg (by simp)]

/-- The second block of proof of stake, over a first one that comes 180 seconds after its predecessor. -/
def secondStakeChain : List WorkEntry := { nHeight := 102, nTime, nBits := 0x1e00ffff } :: stakeChain (steadyEntry 101).nTime

theorem secondStakeChain_workChain : WorkChain exactlyDiffers (secondStakeChain nTime) := by
  have required : getNextWorkRequired .main (stakeChain (steadyEntry 101).nTime) = some 0x1e00ffff := by decide
  have late : ¬(102 : Nat) ≤ 100 := by decide
  refine .next 0 (stakeChain_workChain _) rfl ?_ (fun early => absurd early late)
  rw [checkWork_main required, if_neg (by simp), if_neg (by simp)]

/-- After a late last block of proof of work the product wraps, and the next target is 2460 times as hard as that of this block where the
largest one was due; the first block of proof of stake may have bits that wrap and count for nothing; and with the bits required it wraps,
as does a later block at the same target, when it comes one second after the largest spacing. -/
theorem late_block_wraps :
    (WorkChain exactlyDiffers lateChain ∧ SpacedBelow (2 ^ 23) lateChain ∧ ¬NoWrap .main lateChain ∧
      getNextWorkRequired .main lateChain = some 0x1d01aa3f) ∧
    (WorkChain exactlyDiffers switchChain ∧ SpacedBelow (2 ^ 23) switchChain ∧ ¬NoWrap .main switchChain ∧ getBlockProof 0x2180ffff = 0) ∧
    ∀ chain ∈ [stakeChain ((steadyEntry 100).nTime + 8387567), secondStakeChain ((steadyEntry 101).nTime + 8387567)],
      WorkChain exactlyDiffers chain ∧ SpacedBelow (2 ^ 23) chain ∧ SwitchesAsRequired .main chain ∧ ¬NoWrap .main chain := by
  refine ⟨⟨next_steady (by decide) _ (steadyChain_workChain 99 (by decide)), .cons_cons (by decide) (steadyChain_spaced 99), ?_, by decide⟩,
    ⟨switchChain_workChain, .cons_cons (by decide) (steadyChain_spaced 100), ?_, by decide⟩, ?_⟩
  · intro fits
    have product := (fits _ rfl).2.2.2
    exact absurd product (by decide)
  · intro fits
    have product := (fits _ rfl).2.2.2
    exact absurd product (by decide)
  · have first : getNextWorkRequired .main (steadyChain 100) = some 0x1e00ffff := by decide
    intro chain member
    rcases List.mem_pair.mp member with rfl | rfl
    · refine ⟨stakeChain_workChain _, .cons_cons (by decide) (steadyChain_spaced 100), fun _ => first, ?_⟩
      intro fits
      have product := (fits _ rfl).2.2.2
      exact absurd product (by decide)
    · refine ⟨secondStakeChain_workChain _, .cons_cons (by decide) (.cons_cons (by decide) (steadyChain_spaced 100)),
        fun here => absurd here (by decide), ?_⟩
      intro fits
      have product := (fits _ rfl).2.2.2
      exact absurd product (by decide)

end SchillingCoin
