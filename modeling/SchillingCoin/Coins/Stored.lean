import SchillingCoin.Coins.CCoins
import SchillingCoin.Coins.Compressor
import SchillingCoin.Consensus.Params

/-!
The stored form of `CCoins`: `CalcMaskSize` in `coins.cpp`, `Serialize` and `Unserialize` in `coins.h`. Positions in `vout` are counted without
their 32 bits, the header code is not.
-/

namespace SchillingCoin

open Codec DataStream

namespace CCoins

def unspentAt (c : CCoins) (n : Nat) : Bool := (c.vout[n]?).any fun o => !o.isNull

variable (flags : Nat → Bool) (bytes : Nat)

def packByte : UInt8 :=
  (List.range 8).foldl (fun chAvail i => if flags i then chAvail ||| (1 <<< UInt8.ofNat i) else chAvail) 0

def maskFlags (c : CCoins) (b i : Nat) : Bool := c.unspentAt (2 + b * 8 + i)

def chAvail (c : CCoins) (b : Nat) : UInt8 := packByte (c.maskFlags b)

def maskUsed (c : CCoins) (b : Nat) : Bool := (List.range 8).any (c.maskFlags b)

def maskStep (c : CCoins) (sizes : Nat × Nat) (b : Nat) : Nat × Nat :=
  if c.maskUsed b then (b + 1, sizes.2 + 1) else sizes

def maskSizes (c : CCoins) (rounds : Nat) : Nat × Nat := (List.range rounds).foldl c.maskStep (0, 0)

def calcMaskSize (c : CCoins) : Nat × Nat := c.maskSizes ((c.vout.length - 2 + 7) / 8)

def headerCode (c : CCoins) : Nat :=
  let fFirst := c.unspentAt 0
  let fSecond := c.unspentAt 1
  (16 * (c.calcMaskSize.2 - (if fFirst || fSecond then 0 else 1)) + (if c.fCoinBase then 1 else 0) + (if c.fCoinStake then 2 else 0) +
    (if fFirst then 4 else 0) + (if fSecond then 8 else 0)) % 2 ^ 32

def serializeOutputs (keys : PubKeys) (vout : List CTxOut) : Writes :=
  vout.flatMap fun o => if o.isNull then [] else CTxOutCompressor.serialize keys o

/-- `none` is the failed assertion that an output is left. -/
def serialize (keys : PubKeys) (c : CCoins) : Option Writes :=
  if c.unspentAt 0 || c.unspentAt 1 || decide (c.calcMaskSize.2 ≠ 0) then
    some (writeVarInt c.nVersion ++ writeVarInt c.headerCode ++ (List.range c.calcMaskSize.1).map (fun b => [c.chAvail b]) ++
      serializeOutputs keys c.vout ++ writeVarInt c.nHeight)
  else none

def unpackByte (chAvail : UInt8) : List Bool := (List.range 8).map fun p => chAvail &&& (1 <<< UInt8.ofNat p) != 0

def readMask : (nMaskCode : Nat) → (vAvail : List Bool) → StreamReader (List Bool)
  | 0, vAvail, bytes => .ok (vAvail, bytes)
  | _ + 1, _, [] => .error .endOfData
  | nMaskCode + 1, vAvail, chAvail :: rest =>
    readMask (if chAvail ≠ 0 then nMaskCode else nMaskCode + 1) (vAvail ++ unpackByte chAvail) rest

def readOutput (keys : PubKeys) (avail : Bool) : StreamReader CTxOut :=
  if avail then CTxOutCompressor.unserialize keys else pure .null

def readOutputs (keys : PubKeys) : List Bool → StreamReader (List CTxOut)
  | [] => pure []
  | avail :: vAvail => do
    let out ← readOutput keys avail
    let vout ← readOutputs keys vAvail
    return out :: vout

def maskCode (nCode : Nat) : Nat := nCode / 16 + if nCode.testBit 2 || nCode.testBit 3 then 0 else 1

def unserialize (keys : PubKeys) : StreamReader CCoins := do
  let nVersion ← readVarInt32
  let nCode ← readVarInt (2 ^ 32)
  let vAvail ← readMask (maskCode nCode) [nCode.testBit 2, nCode.testBit 3]
  let vout ← readOutputs keys vAvail
  let nHeight ← readVarInt32
  return cleanup { fCoinBase := nCode.testBit 0, fCoinStake := nCode.testBit 1, vout, nHeight, nVersion }

variable {p : Nat} {keys : PubKeys} {vout : List CTxOut} {network : Network}

theorem shifted_one (small : p < 8) : (1 <<< UInt8.ofNat p : UInt8).toBitVec = BitVec.twoPow 8 p := by
  match p, small with
  | 0, _ | 1, _ | 2, _ | 3, _ | 4, _ | 5, _ | 6, _ | 7, _ => rfl

theorem flag_eq (chAvail : UInt8) (small : p < 8) :
    (chAvail &&& (1 <<< UInt8.ofNat p) != 0) = chAvail.toBitVec.getLsbD p := by
  have masked : (chAvail &&& (1 <<< UInt8.ofNat p)).toBitVec = if chAvail.toBitVec.getLsbD p then BitVec.twoPow 8 p else 0#8 := by
    rw [UInt8.toBitVec_and, shifted_one small, BitVec.and_twoPow]
  cases flag : chAvail.toBitVec.getLsbD p with
  | true =>
    rw [flag, if_pos rfl] at masked
    rw [bne_iff_ne]
    intro zero
    have bit : (BitVec.twoPow 8 p).getLsbD p = true := by simp [small]
    rw [← masked, zero] at bit
    simp at bit
  | false =>
    rw [flag, if_neg nofun] at masked
    have zero : chAvail &&& (1 <<< UInt8.ofNat p) = 0 := UInt8.toBitVec_inj.mp masked
    rw [zero]
    rfl

theorem packed_flags (some_ : n ≤ 8) (small : p < 8) :
    ((List.range n).foldl (fun chAvail i => if flags i then chAvail ||| (1 <<< UInt8.ofNat i) else chAvail) (0 : UInt8)).toBitVec.getLsbD p =
      (decide (p < n) && flags p) := by
  induction n with
  | zero => simp
  | succ n ih =>
    rw [List.range_succ, List.foldl_concat]
    have before := ih (by omega)
    split
    · next set =>
      rw [UInt8.toBitVec_or, BitVec.getLsbD_or, before, shifted_one (by omega), BitVec.getLsbD_twoPow]
      by_cases here : n = p
      · subst here
        simp [set, small]
      · have order : p < n ↔ p < n + 1 := by omega
        simp [here, order]
    · next unset =>
      rw [before]
      by_cases here : p = n
      · subst here
        simp [unset]
      · have order : p < n ↔ p < n + 1 := by omega
        rw [decide_eq_decide.mpr order]

theorem unpackByte_packByte : unpackByte (packByte flags) = (List.range 8).map flags := by
  apply List.map_congr_left
  intro p member
  have small := List.mem_range.mp member
  rw [flag_eq _ small, packByte, packed_flags flags (Nat.le_refl 8) small, decide_eq_true small, Bool.true_and]

theorem packByte_eq_zero : packByte flags = 0 ↔ (List.range 8).any flags = false := by
  have unpacked := unpackByte_packByte flags
  constructor
  · intro zero
    have all : (List.range 8).map flags = List.replicate 8 false := by
      rw [← unpacked, zero]
      rfl
    rw [List.any_eq_false]
    intro i member
    rw [Bool.not_eq_true]
    exact List.eq_of_mem_replicate (all ▸ List.mem_map_of_mem member)
  · intro none_
    rw [List.any_eq_false] at none_
    have same : packByte flags = packByte fun _ => false := by
      apply List.foldl_ext
      intro chAvail i member
      rw [Bool.not_eq_true _ |>.mp (none_ i member)]
    rw [same]
    rfl

/-- What the loop of `calcMaskSize` has found in the bytes before `rounds`. -/
structure MaskScanned (c : CCoins) (rounds : Nat) (sizes : Nat × Nat) : Prop where
  inside : sizes.1 ≤ rounds
  beyond : ∀ b, sizes.1 ≤ b → b < rounds → c.maskUsed b = false
  last : ∀ b, sizes.1 = b + 1 → c.maskUsed b = true
  count : sizes.2 = (List.range sizes.1).countP c.maskUsed

theorem maskScanned (c : CCoins) (rounds : Nat) : MaskScanned c rounds (c.maskSizes rounds) := by
  induction rounds with
  | zero => exact ⟨Nat.le_refl 0, fun _ _ => nofun, nofun, rfl⟩
  | succ rounds ih =>
    have next : c.maskSizes (rounds + 1) = c.maskStep (c.maskSizes rounds) rounds := by
      rw [maskSizes, List.range_succ, List.foldl_concat]
      rfl
    rw [next, maskStep]
    split
    · next used =>
      refine ⟨Nat.le_refl _, fun b low high => ?_, fun b same => ?_, ?_⟩
      · dsimp only at low
        omega
      · have here : b = rounds := by
          dsimp only at same
          omega
        rw [here]
        exact used
      · -- the bytes since the last used one are zero
        have gap : (List.range rounds).countP c.maskUsed = (c.maskSizes rounds).2 := by
          rw [ih.count]
          obtain ⟨more, sum⟩ := Nat.exists_eq_add_of_le ih.inside
          have none_ : ((List.range more).map ((c.maskSizes rounds).1 + ·)).countP c.maskUsed = 0 := by
            apply List.countP_eq_zero.mpr
            intro b member
            obtain ⟨i, small, rfl⟩ := List.mem_map.mp member
            have low := List.mem_range.mp small
            rw [ih.beyond _ (by omega) (by omega)]
            nofun
          conv_lhs => rw [sum, List.range_add, List.countP_append, none_]
          rfl
        rw [List.range_succ, List.countP_append, gap, List.countP_singleton, if_pos used]
    · next unused =>
      refine ⟨Nat.le_succ_of_le ih.inside, fun b low high => ?_, ih.last, ih.count⟩
      rcases Nat.lt_succ_iff_lt_or_eq.mp high with earlier | rfl
      · exact ih.beyond b low earlier
      · exact Bool.not_eq_true _ |>.mp unused

theorem readMask_reads {mask : List UInt8} (last : ∀ ch, mask.getLast? = some ch → ch ≠ 0) (vAvail : List Bool) :
    Reads (readMask (mask.countP (· ≠ 0)) vAvail) (vAvail ++ mask.flatMap unpackByte) mask := by
  induction mask generalizing vAvail with
  | nil =>
    intro rest
    simp [readMask]
  | cons ch mask ih =>
    have later : ∀ ch, mask.getLast? = some ch → ch ≠ 0 := by
      intro ch' here
      exact last ch' (by rw [List.getLast?_cons, here]; rfl)
    intro rest
    have step := ih later (vAvail ++ unpackByte ch) rest
    rw [List.append_assoc] at step
    rw [List.flatMap_cons, List.cons_append]
    by_cases zero : ch = 0
    · -- a byte that is not zero is still to come
      have filled : 0 < mask.countP (· ≠ 0) := by
        cases ends : mask.getLast? with
        | none =>
          have alone : mask = [] := List.getLast?_eq_none_iff.mp ends
          exact absurd zero (last ch (by rw [alone]; rfl))
        | some ch' => exact List.countP_pos_iff.mpr ⟨ch', List.mem_of_getLast? ends, by simpa using later ch' ends⟩
      obtain ⟨more, count⟩ := Nat.exists_eq_add_of_lt filled
      rw [Nat.zero_add] at count
      rw [count] at step
      rw [List.countP_cons_of_neg (by simp [zero]), count, readMask, if_neg (by simp [zero])]
      exact step
    · rw [List.countP_cons_of_pos (by simpa using zero), readMask, if_pos zero]
      exact step

variable {c : CCoins}

theorem chAvail_eq_zero (c : CCoins) (b : Nat) : c.chAvail b = 0 ↔ c.maskUsed b = false := packByte_eq_zero _

def mask (c : CCoins) : List UInt8 := (List.range c.calcMaskSize.1).map c.chAvail

theorem mask_count : c.mask.countP (· ≠ 0) = c.calcMaskSize.2 := by
  rw [mask, List.countP_map, calcMaskSize, (maskScanned c _).count]
  apply List.countP_congr
  intro b _
  have same := chAvail_eq_zero c b
  cases used : c.maskUsed b <;> simp_all

theorem mask_last (last : c.mask.getLast? = some ch) : ch ≠ 0 := by
  rw [mask, List.getLast?_map] at last
  obtain ⟨b, here, rfl⟩ := Option.map_eq_some_iff.mp last
  have next : c.calcMaskSize.1 = b + 1 := by
    rw [List.getLast?_range] at here
    split at here
    · cases here
    · have same := Option.some.inj here
      omega
  intro zero
  have used := (maskScanned c _).last b next
  rw [(chAvail_eq_zero c b).mp zero] at used
  cases used

theorem unspentAt_of_maskUsed (unused : c.maskUsed b = false) (small : i < 8) : c.unspentAt (2 + b * 8 + i) = false := by
  unfold maskUsed at unused
  rw [List.any_eq_false] at unused
  exact Bool.not_eq_true _ |>.mp (unused i (List.mem_range.mpr small))

theorem spent_beyond (after : 2 + 8 * c.calcMaskSize.1 ≤ n) : c.unspentAt n = false := by
  by_cases inside : n < c.vout.length
  · have unused := (maskScanned c ((c.vout.length - 2 + 7) / 8)).beyond ((n - 2) / 8) (by unfold calcMaskSize at after; omega) (by omega)
    have spent := unspentAt_of_maskUsed unused (Nat.mod_lt (n - 2) (by omega))
    have position : 2 + (n - 2) / 8 * 8 + (n - 2) % 8 = n := by omega
    rwa [position] at spent
  · unfold unspentAt
    rw [List.getElem?_eq_none (by omega)]
    rfl

theorem length_le_mask (trim : c.Trim) : c.vout.length ≤ 2 + 8 * c.calcMaskSize.1 := by
  by_contra longer
  have spent := @spent_beyond c (c.vout.length - 1) (by omega)
  have inside : c.vout.length - 1 < c.vout.length := by omega
  have last : c.vout.getLast? = some c.vout[c.vout.length - 1] := by
    rw [List.getLast?_eq_getElem?, List.getElem?_eq_getElem inside]
  have unspent := trim _ last
  rw [unspentAt, List.getElem?_eq_getElem inside, Option.any_some, unspent] at spent
  cases spent

theorem range_unspentAt :
    [c.unspentAt 0, c.unspentAt 1] ++ (List.range bytes).flatMap (fun b => (List.range 8).map (c.maskFlags b)) =
      (List.range (2 + 8 * bytes)).map c.unspentAt := by
  induction bytes with
  | zero => rfl
  | succ bytes ih =>
    have eight : 2 + 8 * (bytes + 1) = 2 + 8 * bytes + 8 := by omega
    rw [@List.range_succ bytes, List.flatMap_append, List.flatMap_singleton, ← List.append_assoc, ih, eight, @List.range_add (2 + 8 * bytes) 8,
      List.map_append, List.map_map]
    congr 1
    apply List.map_congr_left
    intro i _
    have position : 2 + bytes * 8 + i = 2 + 8 * bytes + i := by omega
    rw [maskFlags, position]
    rfl

theorem flags_read (trim : c.Trim) : [c.unspentAt 0, c.unspentAt 1] ++ c.mask.flatMap unpackByte =
    c.vout.map (fun o => !o.isNull) ++ List.replicate (2 + 8 * c.calcMaskSize.1 - c.vout.length) false := by
  have unpacked : c.mask.flatMap unpackByte = (List.range c.calcMaskSize.1).flatMap fun b => (List.range 8).map (c.maskFlags b) := by
    rw [mask, List.flatMap_map]
    congr 1
    funext b
    exact unpackByte_packByte _
  have long := length_le_mask trim
  rw [unpacked, range_unspentAt]
  apply List.ext_getElem?
  intro n
  by_cases inside : n < c.vout.length
  · rw [List.getElem?_append_left (by simpa using inside), List.getElem?_map, List.getElem?_range (by omega), List.getElem?_map,
      List.getElem?_eq_getElem inside]
    simp [unspentAt, List.getElem?_eq_getElem inside]
  · rw [List.getElem?_append_right (by simpa using inside), List.length_map, List.getElem?_replicate, List.getElem?_map]
    by_cases padded : n < 2 + 8 * c.calcMaskSize.1
    · rw [List.getElem?_range padded, if_pos (by omega)]
      simp [unspentAt, List.getElem?_eq_none (Nat.le_of_not_lt inside)]
    · rw [List.getElem?_eq_none (by simpa using padded), if_neg (by omega)]
      rfl

theorem flag_value (flag : Bool) (value : Nat) : (if flag then value else 0) = value * flag.toNat := by
  cases flag <;> simp

theorem header_bits (m : Nat) (a b f s : Bool) :
    let nCode := 16 * m + (if a then 1 else 0) + (if b then 2 else 0) + (if f then 4 else 0) + (if s then 8 else 0)
    nCode.testBit 0 = a ∧ nCode.testBit 1 = b ∧ nCode.testBit 2 = f ∧ nCode.testBit 3 = s ∧ nCode / 16 = m := by
  have flag (x : Bool) (n : Nat) (same : n = x.toNat) : decide (n = 1) = x := by
    cases x <;> simp [same]
  have := a.toNat_le
  have := b.toNat_le
  have := f.toNat_le
  have := s.toNat_le
  simp only [flag_value, Nat.testBit_eq_decide_div_mod_eq]
  exact ⟨flag a _ (by omega), flag b _ (by omega), flag f _ (by omega), flag s _ (by omega), by omega⟩

def HeaderFits (c : CCoins) : Prop := c.calcMaskSize.2 < 2 ^ 28

theorem maskSize_le (c : CCoins) : c.calcMaskSize.2 ≤ (c.vout.length - 2 + 7) / 8 := by
  have scanned := maskScanned c ((c.vout.length - 2 + 7) / 8)
  have count := scanned.count
  have inside := scanned.inside
  have most := @List.countP_le_length _ c.maskUsed (List.range (c.maskSizes ((c.vout.length - 2 + 7) / 8)).1)
  rw [List.length_range] at most
  unfold calcMaskSize
  omega

theorem headerFits_of_length (small : c.vout.length + 6 ≤ 2 ^ 31) : c.HeaderFits := by
  have most := maskSize_le c
  unfold HeaderFits
  omega

theorem headerCode_read (fits : c.HeaderFits) (left : (c.unspentAt 0 || c.unspentAt 1 || decide (c.calcMaskSize.2 ≠ 0)) = true) :
    c.headerCode < 2 ^ 32 ∧ c.headerCode.testBit 0 = c.fCoinBase ∧ c.headerCode.testBit 1 = c.fCoinStake ∧
      c.headerCode.testBit 2 = c.unspentAt 0 ∧ c.headerCode.testBit 3 = c.unspentAt 1 ∧ maskCode c.headerCode = c.calcMaskSize.2 := by
  have bits := header_bits (c.calcMaskSize.2 - (if c.unspentAt 0 || c.unspentAt 1 then 0 else 1)) c.fCoinBase c.fCoinStake
    (c.unspentAt 0) (c.unspentAt 1)
  have whole : c.headerCode = 16 * (c.calcMaskSize.2 - (if c.unspentAt 0 || c.unspentAt 1 then 0 else 1)) +
      (if c.fCoinBase then 1 else 0) + (if c.fCoinStake then 2 else 0) + (if c.unspentAt 0 then 4 else 0) +
      (if c.unspentAt 1 then 8 else 0) := by
    unfold HeaderFits at fits
    apply Nat.mod_eq_of_lt
    split_ifs
    all_goals omega
  obtain ⟨base, stake, first, second, count⟩ := bits
  rw [← whole] at base stake first second count
  refine ⟨Nat.mod_lt _ (by omega), base, stake, first, second, ?_⟩
  rw [maskCode, count, first, second]
  cases available : c.unspentAt 0 || c.unspentAt 1 with
  | true => rfl
  | false =>
    rw [available, Bool.false_or, decide_eq_true_iff] at left
    exact Nat.sub_add_cancel (Nat.pos_of_ne_zero left)

/-- An output as it is read back: what is only in memory is lost. -/
def readBack (o : CTxOut) : CTxOut := if o.isNull then .null else { o with nRounds := -10 }

@[simp] theorem isNull_readBack (o : CTxOut) : (readBack o).isNull = o.isNull := by
  unfold readBack
  split
  · next spent => rw [spent]; rfl
  · rfl

structure OutputsFit (vout : List CTxOut) : Prop where
  nonneg : ∀ o ∈ vout, o.isNull = false → 0 ≤ o.nValue
  small : ∀ o ∈ vout, o.isNull = false → o.nValue < 2 ^ 60
  short : ∀ o ∈ vout, o.isNull = false → o.scriptPubKey.length ≤ MAX_SCRIPT_SIZE

theorem readOutputs_spent (keys : PubKeys) (k : Nat) : Reads (readOutputs keys (List.replicate k false)) (List.replicate k .null) [] := by
  induction k with
  | zero => exact Reads.pure []
  | succ k ih =>
    rw [List.replicate_succ, List.replicate_succ]
    exact (Reads.pure CTxOut.null).bind ih.bind_pure

theorem readOutputs_reads (inverts : keys.Inverts) (fit : OutputsFit vout) (k : Nat) :
    Reads (readOutputs keys (vout.map (fun o => !o.isNull) ++ List.replicate k false)) (vout.map readBack ++ List.replicate k .null)
      (serializeOutputs keys vout).bytes := by
  induction vout with
  | nil => exact readOutputs_spent keys k
  | cons o vout ih =>
    have others := ih ⟨fun o' member => fit.nonneg o' (List.mem_cons_of_mem _ member),
      fun o' member => fit.small o' (List.mem_cons_of_mem _ member), fun o' member => fit.short o' (List.mem_cons_of_mem _ member)⟩
    have here : Reads (readOutput keys (!o.isNull)) (readBack o) (Writes.bytes (if o.isNull then [] else CTxOutCompressor.serialize keys o)) := by
      unfold readBack
      cases spent : o.isNull with
      | true => exact Reads.pure CTxOut.null
      | false =>
        exact CTxOutCompressor.unserialize_reads inverts (fit.nonneg o List.mem_cons_self spent) (fit.small o List.mem_cons_self spent)
          (fit.short o List.mem_cons_self spent)
    have bytes : (serializeOutputs keys (o :: vout)).bytes =
        Writes.bytes (if o.isNull then [] else CTxOutCompressor.serialize keys o) ++ (serializeOutputs keys vout).bytes := by
      rw [serializeOutputs, List.flatMap_cons, Writes.bytes_append]
      rfl
    rw [bytes]
    exact here.bind others.bind_pure

theorem cleanup_padded (trim : Trimmed.IsTrim CTxOut.isNull vout) (k : Nat) :
    (vout ++ List.replicate k CTxOut.null).rdropWhile CTxOut.isNull = vout := by
  induction k with
  | zero => rw [List.replicate_zero, List.append_nil, Trimmed.rdropWhile_of_isTrim trim]
  | succ k ih => rw [List.replicate_succ', ← List.append_assoc, List.rdropWhile_concat_pos _ _ _ CTxOut.isNull_null, ih]

theorem trim_readBack (trim : c.Trim) : Trimmed.IsTrim CTxOut.isNull (c.vout.map readBack) := by
  intro o last
  rw [List.getLast?_map] at last
  obtain ⟨o', here, rfl⟩ := Option.map_eq_some_iff.mp last
  rw [isNull_readBack]
  exact trim o' here

theorem unspent_of_unpruned (unpruned : c.isPruned = false) :
    (c.unspentAt 0 || c.unspentAt 1 || decide (c.calcMaskSize.2 ≠ 0)) = true := by
  by_contra none_
  rw [Bool.not_eq_true, Bool.or_eq_false_iff, Bool.or_eq_false_iff, decide_eq_false_iff_not, not_not] at none_
  obtain ⟨⟨first, second⟩, unused⟩ := none_
  have scanned := maskScanned c ((c.vout.length - 2 + 7) / 8)
  have empty : c.calcMaskSize.1 = 0 := by
    cases size : c.calcMaskSize.1 with
    | zero => rfl
    | succ b =>
      have used := scanned.last b size
      have counted : 0 < c.calcMaskSize.2 := by
        rw [calcMaskSize, scanned.count]
        exact List.countP_pos_iff.mpr ⟨b, List.mem_range.mpr (by unfold calcMaskSize at size; omega), used⟩
      omega
  have pruned : c.isPruned = true := by
    rw [isPruned_iff]
    intro o member
    obtain ⟨n, inside, rfl⟩ := List.mem_iff_getElem.mp member
    have spent : c.unspentAt n = false := by
      match n with
      | 0 => exact first
      | 1 => exact second
      | n + 2 => exact spent_beyond (by omega)
    rw [unspentAt, List.getElem?_eq_getElem inside, Option.any_some, Bool.not_eq_false'] at spent
    exact spent
  rw [pruned] at unpruned
  cases unpruned

theorem bytes_mask : Writes.bytes ((List.range c.calcMaskSize.1).map fun b => [c.chAvail b]) = c.mask := by
  rw [mask, ← bytes_singletons (List.map c.chAvail _), List.map_map]
  rfl

theorem serialize_reads (inverts : keys.Inverts) (trim : c.Trim) (unpruned : c.isPruned = false)
    (nVersion : 0 ≤ c.nVersion ∧ c.nVersion < 2 ^ 31) (nHeight : 0 ≤ c.nHeight ∧ c.nHeight < 2 ^ 31)
    (fit : OutputsFit c.vout) (header : c.HeaderFits) : ∃ writes, c.serialize keys = some writes ∧
      Reads (unserialize keys) { c with vout := c.vout.map readBack } writes.bytes := by
  have left := unspent_of_unpruned unpruned
  obtain ⟨small, base, stake, first, second, count⟩ := headerCode_read header left
  refine ⟨_, if_pos left, ?_⟩
  have flags : Reads (readMask (maskCode c.headerCode) [c.headerCode.testBit 2, c.headerCode.testBit 3])
      (c.vout.map (fun o => !o.isNull) ++ List.replicate (2 + 8 * c.calcMaskSize.1 - c.vout.length) false) c.mask := by
    rw [first, second, count, ← flags_read trim, ← mask_count]
    exact readMask_reads (fun _ => mask_last) _
  have outputs := readOutputs_reads inverts fit (2 + 8 * c.calcMaskSize.1 - c.vout.length)
  have cleaned : cleanup
      { fCoinBase := c.headerCode.testBit 0, fCoinStake := c.headerCode.testBit 1
        vout := c.vout.map readBack ++ List.replicate (2 + 8 * c.calcMaskSize.1 - c.vout.length) .null
        nHeight := c.nHeight, nVersion := c.nVersion } = { c with vout := c.vout.map readBack } := by
    rw [cleanup, base, stake]
    dsimp only
    rw [cleanup_padded (trim_readBack trim)]
  rw [← cleaned, Writes.bytes_append, Writes.bytes_append, Writes.bytes_append, Writes.bytes_append, bytes_mask, List.append_assoc,
    List.append_assoc, List.append_assoc]
  exact (readVarInt32_reads nVersion.1 nVersion.2).bind ((readVarInt_reads small).bind (flags.bind (outputs.bind
    (readVarInt32_reads nHeight.1 nHeight.2).bind_pure)))

structure Storable (network : Network) (c : CCoins) : Prop where
  unpruned : c.isPruned = false
  trim : c.Trim
  nVersion : 0 ≤ c.nVersion ∧ c.nVersion < 2 ^ 31
  nHeight : 0 ≤ c.nHeight ∧ c.nHeight < 2 ^ 31
  values : ∀ o ∈ c.vout, o.isNull = false → network.consensus.moneyRange o.nValue = true
  scripts : ∀ o ∈ c.vout, o.isNull = false → o.scriptPubKey.length ≤ MAX_SCRIPT_SIZE

structure StoredWhole (c : CCoins) : Prop where
  spent : ∀ o ∈ c.vout, o.isNull = true → o = .null
  nRounds : ∀ o ∈ c.vout, o.isNull = false → o.nRounds = -10

theorem moneyRange_bounds (allowed : network.consensus.moneyRange nValue = true) : 0 ≤ nValue ∧ nValue < 2 ^ 60 := by
  simp only [Consensus.Params.moneyRange, Bool.and_eq_true, decide_eq_true_iff] at allowed
  have limit : network.consensus.nMaxMoneyOut < 2 ^ 60 := by cases network <;> decide
  omega

theorem Storable.outputsFit (storable : c.Storable network) : OutputsFit c.vout where
  nonneg o member left := (moneyRange_bounds (storable.values o member left)).1
  small o member left := (moneyRange_bounds (storable.values o member left)).2
  short := storable.scripts

theorem StoredWhole.readBack_eq (whole : c.StoredWhole) : c.vout.map readBack = c.vout := by
  have same : c.vout.map readBack = c.vout.map id := by
    apply List.map_congr_left
    intro o member
    unfold readBack
    cases spent : o.isNull with
    | true => exact (whole.spent o member spent).symm
    | false =>
      have rounds := whole.nRounds o member spent
      cases o
      cases rounds
      rfl
  rw [same, List.map_id]

theorem Storable.reads (inverts : keys.Inverts) (storable : c.Storable network) (header : c.HeaderFits) :
    ∃ writes, c.serialize keys = some writes ∧
      Reads (unserialize keys) { c with vout := c.vout.map readBack } writes.bytes :=
  serialize_reads inverts storable.trim storable.unpruned storable.nVersion storable.nHeight storable.outputsFit header

/-- The stored form gives every field, every position and the end of the bytes back. -/
theorem stored_form_lossless {network : Network} {keys : PubKeys} {c : CCoins} (inverts : keys.Inverts) (storable : c.Storable network)
    (whole : c.StoredWhole) (size : c.vout.length + 6 ≤ 2 ^ 31) :
    ∃ writes, c.serialize keys = some writes ∧ ∀ rest, unserialize keys (writes.bytes ++ rest) = .ok (c, rest) := by
  obtain ⟨writes, written, reads⟩ := storable.reads inverts (headerFits_of_length size)
  rw [whole.readBack_eq] at reads
  exact ⟨writes, written, reads⟩

def generatorKey : List UInt8 :=
  [0x04, 0x79, 0xbe, 0x66, 0x7e, 0xf9, 0xdc, 0xbb, 0xac, 0x55, 0xa0, 0x62, 0x95, 0xce, 0x87, 0x0b, 0x07, 0x02, 0x9b, 0xfc, 0xdb,
   0x2d, 0xce, 0x28, 0xd9, 0x59, 0xf2, 0x81, 0x5b, 0x16, 0xf8, 0x17, 0x98, 0x48, 0x3a, 0xda, 0x77, 0x26, 0xa3, 0xc4, 0x65, 0x5d,
   0xa4, 0xfb, 0xfc, 0x0e, 0x11, 0x08, 0xa8, 0xfd, 0x17, 0xb4, 0x48, 0xa6, 0x85, 0x54, 0x19, 0x9c, 0x47, 0xd0, 0x8f, 0xfb, 0x10,
   0xd4, 0xb8]

def generatorKeys : PubKeys where
  isFullyValid := fun pubkey => pubkey == generatorKey
  decompress := fun vch => if vch = compressedKey generatorKey then some generatorKey else none

theorem generatorKeys_inverts : generatorKeys.Inverts := by
  intro pubkey _ _ valid
  have same : pubkey = generatorKey := beq_iff_eq.mp valid
  rw [same]
  rfl

def generatorCoins : CCoins where
  fCoinStake := true
  vout := [{ nValue := 250 * COIN, scriptPubKey := [0x51] }, .null, { nValue := 7, scriptPubKey := [65] ++ generatorKey ++ [0xac] }]
  nHeight := 203998
  nVersion := 1

theorem generatorCoins_storable : generatorCoins.Storable .main where
  unpruned := rfl
  trim := by
    intro o last
    cases last
    rfl
  nVersion := by decide
  nHeight := by decide
  values := by decide
  scripts := by decide

theorem generatorCoins_whole : generatorCoins.StoredWhole := ⟨by decide, by decide⟩

theorem generator_coins_lossless : ∃ writes, generatorCoins.serialize generatorKeys = some writes ∧
    ∀ rest, unserialize generatorKeys (writes.bytes ++ rest) = .ok (generatorCoins, rest) :=
  stored_form_lossless generatorKeys_inverts generatorCoins_storable generatorCoins_whole (by decide)

theorem lost_of_readBack (inverts : keys.Inverts) (storable : c.Storable network) (header : c.HeaderFits)
    (lost : c.vout.map readBack ≠ c.vout) :
    ∀ writes, c.serialize keys = some writes → unserialize keys writes.bytes ≠ .ok (c, []) := by
  intro writes written same
  obtain ⟨writes', written', reads⟩ := storable.reads inverts header
  rw [written] at written'
  cases written'
  have read := reads []
  rw [List.append_nil, same] at read
  exact lost (congrArg vout (congrArg Prod.fst (Except.ok.inj read))).symm

theorem readOutputs_length {bytes : List UInt8} (done : readOutputs keys vAvail bytes = .ok (vout, rest)) :
    vout.length = vAvail.length := by
  induction vAvail generalizing vout bytes rest with
  | nil =>
    obtain ⟨rfl, _⟩ := pure_ok done
    rfl
  | cons avail vAvail ih =>
    obtain ⟨out, _, _, done⟩ := bind_ok done
    obtain ⟨others, _, second, done⟩ := bind_ok done
    obtain ⟨rfl, _⟩ := pure_ok done
    rw [List.length_cons, List.length_cons, ih second]

theorem short_of_code {nVersion : Int} {bytes rest : List UInt8} (version : 0 ≤ nVersion ∧ nVersion < 2 ^ 31)
    (small : nCode < 2 ^ 32) (empty : maskCode nCode = 0)
    (done : unserialize keys ((writeVarInt nVersion).bytes ++ ((writeVarInt nCode).bytes ++ bytes)) = .ok (c, rest)) :
    c.vout.length ≤ 2 := by
  obtain ⟨_, mid, first, done⟩ := bind_ok done
  rw [readVarInt32_reads version.1 version.2] at first
  cases first
  obtain ⟨_, mid, second, done⟩ := bind_ok done
  rw [readVarInt_reads small] at second
  cases second
  obtain ⟨vAvail, mid, third, done⟩ := bind_ok done
  rw [empty, readMask] at third
  cases third
  obtain ⟨vout, mid, fourth, done⟩ := bind_ok done
  obtain ⟨_, mid, _, done⟩ := bind_ok done
  obtain ⟨rfl, _⟩ := pure_ok done
  have two := readOutputs_length fourth
  have cleaned := (List.rdropWhile_prefix CTxOut.isNull vout).length_le
  exact Nat.le_trans cleaned (Nat.le_of_eq two)

def freeCoins : CCoins where
  vout := List.replicate (2 + 8 * bytes) { nValue := 0, scriptPubKey := [] }
  nVersion := 1

theorem freeCoins_unspentAt {bytes : Nat} (inside : n < 2 + 8 * bytes) : (freeCoins bytes).unspentAt n = true := by
  rw [unspentAt, freeCoins, List.getElem?_replicate, if_pos inside]
  rfl

theorem freeCoins_storable : (freeCoins bytes).Storable .main where
  unpruned := by
    rw [Bool.eq_false_iff, ne_eq, isPruned_iff]
    intro spent
    exact absurd (spent _ (List.mem_replicate.mpr ⟨by omega, rfl⟩)) (by decide)
  trim := by
    intro o last
    rw [List.eq_of_mem_replicate (List.mem_of_getLast? last)]
    rfl
  nVersion := (by decide : (0 : Int) ≤ 1 ∧ (1 : Int) < 2 ^ 31)
  nHeight := (by decide : (0 : Int) ≤ 0 ∧ (0 : Int) < 2 ^ 31)
  values := by
    intro o member _
    rw [List.eq_of_mem_replicate member]
    decide
  scripts := by
    intro o member _
    rw [List.eq_of_mem_replicate member]
    decide

theorem freeCoins_maskCode : (freeCoins bytes).calcMaskSize.2 = bytes := by
  have length : (freeCoins bytes).vout.length = 2 + 8 * bytes := List.length_replicate
  have used : ∀ b < bytes, (freeCoins bytes).maskUsed b = true := by
    intro b inside
    rw [maskUsed, List.any_eq_true]
    exact ⟨0, List.mem_range.mpr (by omega), freeCoins_unspentAt (by omega)⟩
  have scanned := maskScanned (freeCoins bytes) bytes
  have rounds : (freeCoins bytes).calcMaskSize = (freeCoins bytes).maskSizes bytes := by
    rw [calcMaskSize, length]
    congr 1
    omega
  have whole : ((freeCoins bytes).maskSizes bytes).1 = bytes := by
    by_contra other
    have inside := scanned.inside
    have unused := scanned.beyond (bytes - 1) (by omega) (by omega)
    rw [used (bytes - 1) (by omega)] at unused
    cases unused
  rw [rounds, scanned.count, whole, List.countP_eq_length.mpr fun b member => used b (List.mem_range.mp member), List.length_range]

theorem freeCoins_lost {bytes : Nat} (wraps : 16 * bytes % 2 ^ 32 = 0) (some_ : 0 < bytes) :
    ∀ writes, (freeCoins bytes).serialize keys = some writes → unserialize keys writes.bytes ≠ .ok (freeCoins bytes, []) := by
  intro writes written same
  have first : (freeCoins bytes).unspentAt 0 = true := freeCoins_unspentAt (by omega)
  have second : (freeCoins bytes).unspentAt 1 = true := freeCoins_unspentAt (by omega)
  have code : (freeCoins bytes).headerCode = 12 := by
    rw [headerCode, first, second, freeCoins_maskCode]
    show (16 * (bytes - 0) + 0 + 0 + 4 + 8) % 2 ^ 32 = 12
    omega
  rw [serialize, first, Bool.true_or, Bool.true_or, if_pos rfl] at written
  cases written
  rw [Writes.bytes_append, Writes.bytes_append, Writes.bytes_append, Writes.bytes_append, List.append_assoc, List.append_assoc,
    List.append_assoc, code] at same
  have short := short_of_code (freeCoins_storable bytes).nVersion (by omega) (by decide) same
  have length : (freeCoins bytes).vout.length = 2 + 8 * bytes := List.length_replicate
  omega

def noKeys : PubKeys := { isFullyValid := fun _ => false, decompress := fun _ => none }

def mixedCoins : CCoins := { vout := [{ nValue := 1, scriptPubKey := [0x51], nRounds := 2 }], nVersion := 1 }

def spentScriptCoins : CCoins :=
  { vout := [{ nValue := -1, scriptPubKey := [0x51] }, { nValue := 1, scriptPubKey := [0x51] }], nVersion := 1 }

theorem mixedCoins_storable : mixedCoins.Storable .main where
  unpruned := rfl
  trim := by
    intro o last
    cases last
    rfl
  nVersion := by decide
  nHeight := by decide
  values := by decide
  scripts := by decide

theorem spentScriptCoins_storable : spentScriptCoins.Storable .main where
  unpruned := rfl
  trim := by
    intro o last
    cases last
    rfl
  nVersion := by decide
  nHeight := by decide
  values := by decide
  scripts := by decide

/-- The rounds of mixing, the script of a spent output and a mask of `2 ^ 28` bytes are not read back. -/
theorem stored_coins_lost :
    noKeys.Inverts ∧
    (mixedCoins.Storable .main ∧
      ∀ writes, mixedCoins.serialize noKeys = some writes → unserialize noKeys writes.bytes ≠ .ok (mixedCoins, [])) ∧
    (spentScriptCoins.Storable .main ∧
      ∀ writes, spentScriptCoins.serialize noKeys = some writes → unserialize noKeys writes.bytes ≠ .ok (spentScriptCoins, [])) ∧
    ((freeCoins (2 ^ 28)).Storable .main ∧ ∀ writes, (freeCoins (2 ^ 28)).serialize noKeys = some writes →
      unserialize noKeys writes.bytes ≠ .ok (freeCoins (2 ^ 28), [])) := by
  have inverts : noKeys.Inverts := fun _ _ _ valid => nomatch valid
  refine ⟨inverts, ⟨mixedCoins_storable, ?_⟩, ⟨spentScriptCoins_storable, ?_⟩, freeCoins_storable _, ?_⟩
  · exact lost_of_readBack inverts mixedCoins_storable (headerFits_of_length (by decide)) (by decide)
  · exact lost_of_readBack inverts spentScriptCoins_storable (headerFits_of_length (by decide)) (by decide)
  · exact freeCoins_lost (by norm_num) (by norm_num)

end CCoins

end SchillingCoin
