import SchillingCoin.Coins.Stored

/-!
`CCoins::GetSerializeSize` in `coins.h`, which computes the header code in its own way. Sizes are counted without their 32 bits, the code is
not.
-/

namespace SchillingCoin

open Codec DataStream

namespace CCoins

variable (c : CCoins) (keys : PubKeys)

def sizeCode : Nat :=
  let fFirst := c.unspentAt 0
  let fSecond := c.unspentAt 1
  (8 * (c.calcMaskSize.2 - (if fFirst || fSecond then 0 else 1)) + (if c.fCoinBase then 1 else 0) + (if c.fCoinStake then 2 else 0) +
    (if fFirst then 4 else 0) + (if fSecond then 8 else 0)) % 2 ^ 32

def outputSizes (vout : List CTxOut) : Nat :=
  vout.foldl (fun nSize o => if o.isNull then nSize else nSize + (CTxOutCompressor.serialize keys o).size) 0

/-- `none` is the failed assertion that an output is left. -/
def getSerializeSize (c : CCoins) : Option Nat :=
  if c.unspentAt 0 || c.unspentAt 1 || decide (c.calcMaskSize.2 ≠ 0) then
    some (getSizeOfVarInt c.nVersion + getSizeOfVarInt c.sizeCode + c.calcMaskSize.1 + outputSizes keys c.vout + getSizeOfVarInt c.nHeight)
  else none

variable {c : CCoins}

theorem outputSizes_eq (vout : List CTxOut) : outputSizes keys vout = (serializeOutputs keys vout).bytes.length := by
  have counted : ∀ start, vout.foldl (fun nSize o => if o.isNull then nSize else nSize + (CTxOutCompressor.serialize keys o).size) start =
      start + (serializeOutputs keys vout).bytes.length := by
    induction vout with
    | nil => exact fun _ => rfl
    | cons o vout ih =>
      intro start
      rw [List.foldl_cons, ih, serializeOutputs, serializeOutputs, List.flatMap_cons, Writes.bytes_append, List.length_append]
      split
      · rw [Writes.bytes_nil, List.length_nil, Nat.zero_add]
      · rw [Writes.size_eq_length, Nat.add_assoc]
  have total := counted 0
  rwa [Nat.zero_add] at total

theorem size_of_serialize (unpruned : c.isPruned = false) :
    ∃ writes nSize, c.serialize keys = some writes ∧ c.getSerializeSize keys = some nSize ∧
      nSize + getSizeOfVarInt c.headerCode = writes.bytes.length + getSizeOfVarInt c.sizeCode := by
  have left := unspent_of_unpruned unpruned
  refine ⟨_, _, if_pos left, if_pos left, ?_⟩
  have maskLength : c.mask.length = c.calcMaskSize.1 := by rw [mask, List.length_map, List.length_range]
  simp only [Writes.bytes_append, List.length_append, bytes_mask, maskLength, outputSizes_eq, getSizeOfVarInt_eq]
  omega

def usedGroups (c : CCoins) : Nat := (List.range c.vout.length).countP c.maskUsed

def headerGroups (c : CCoins) : Nat := c.usedGroups - if c.unspentAt 0 || c.unspentAt 1 then 0 else 1

def headerFlags (c : CCoins) : Nat :=
  (if c.fCoinBase then 1 else 0) + (if c.fCoinStake then 2 else 0) + (if c.unspentAt 0 then 4 else 0) + (if c.unspentAt 1 then 8 else 0)

/-- No number at which a further byte begins lies above the code with a place for three flags and not above the one with a place for four. -/
def CodesAlike (c : CCoins) : Prop :=
  ∀ bound ∈ varIntBounds, bound ≤ (8 * c.headerGroups + c.headerFlags) % 2 ^ 32 ↔ bound ≤ (16 * c.headerGroups + c.headerFlags) % 2 ^ 32

theorem usedGroups_eq (c : CCoins) : c.calcMaskSize.2 = c.usedGroups := by
  have scanned := maskScanned c ((c.vout.length - 2 + 7) / 8)
  have inside := scanned.inside
  rw [calcMaskSize, scanned.count, usedGroups]
  obtain ⟨more, sum⟩ := Nat.exists_eq_add_of_le (show (c.maskSizes ((c.vout.length - 2 + 7) / 8)).1 ≤ c.vout.length by omega)
  have none_ : ((List.range more).map ((c.maskSizes ((c.vout.length - 2 + 7) / 8)).1 + ·)).countP c.maskUsed = 0 := by
    apply List.countP_eq_zero.mpr
    intro b member
    obtain ⟨i, _, rfl⟩ := List.mem_map.mp member
    rw [Bool.not_eq_true]
    by_cases scannedHere : (c.maskSizes ((c.vout.length - 2 + 7) / 8)).1 + i < (c.vout.length - 2 + 7) / 8
    · exact scanned.beyond _ (by omega) scannedHere
    · -- past the end of the outputs nothing is left
      rw [maskUsed, List.any_eq_false]
      intro j _
      rw [maskFlags, unspentAt, List.getElem?_eq_none (by omega)]
      simp
  conv_rhs => rw [sum, List.range_add, List.countP_append, none_, Nat.add_zero]

theorem headerCode_eq (c : CCoins) : c.headerCode = (16 * c.headerGroups + c.headerFlags) % 2 ^ 32 := by
  unfold headerCode headerGroups headerFlags
  rw [usedGroups_eq]
  simp only [Nat.add_assoc]

theorem sizeCode_eq (c : CCoins) : c.sizeCode = (8 * c.headerGroups + c.headerFlags) % 2 ^ 32 := by
  unfold sizeCode headerGroups headerFlags
  rw [usedGroups_eq]
  simp only [Nat.add_assoc]

theorem filter_length_eq_iff (m n : Nat) : (varIntBounds.filter (· ≤ m)).length = (varIntBounds.filter (· ≤ n)).length ↔
    ∀ bound ∈ varIntBounds, bound ≤ m ↔ bound ≤ n := by
  constructor
  · intro same
    have ordered : ∀ m n, m ≤ n → (varIntBounds.filter (· ≤ m)).length = (varIntBounds.filter (· ≤ n)).length →
        ∀ bound ∈ varIntBounds, bound ≤ n → bound ≤ m := by
      intro m n less same bound member below
      have sub : (varIntBounds.filter (· ≤ m)).Sublist (varIntBounds.filter (· ≤ n)) :=
        List.monotone_filter_right _ fun bound low => by
          rw [decide_eq_true_eq] at low ⊢
          omega
      have filtered : bound ∈ varIntBounds.filter (· ≤ m) := by
        rw [sub.eq_of_length same]
        exact List.mem_filter.mpr ⟨member, by simpa using below⟩
      simpa using (List.mem_filter.mp filtered).2
    intro bound member
    rcases Nat.le_total m n with less | less
    · exact ⟨fun low => Nat.le_trans low less, ordered m n less same bound member⟩
    · exact ⟨ordered n m less same.symm bound member, fun low => Nat.le_trans low less⟩
  · intro alike
    congr 1
    exact List.filter_congr fun bound member => decide_eq_decide.mpr (alike bound member)

theorem codesAlike_iff (few : c.headerGroups < 2 ^ 28) : c.CodesAlike ↔
    c.headerGroups ≤ 7 ∨ 16 ≤ c.headerGroups + (c.unspentAt 1).toNat ∧ c.headerGroups ≤ 1031 ∨
      2064 ≤ c.headerGroups + (c.unspentAt 1).toNat ∧ c.headerGroups ≤ 132103 ∨
      264208 ≤ c.headerGroups + (c.unspentAt 1).toNat ∧ c.headerGroups ≤ 16909319 ∨
      33818640 ≤ c.headerGroups + (c.unspentAt 1).toNat := by
  obtain ⟨low, small, flags⟩ : ∃ low, low ≤ 7 ∧ c.headerFlags = low + 8 * (c.unspentAt 1).toNat := by
    refine ⟨(if c.fCoinBase then 1 else 0) + (if c.fCoinStake then 2 else 0) + (if c.unspentAt 0 then 4 else 0), ?_, ?_⟩
    · split_ifs <;> omega
    · rw [headerFlags, flag_value (c.unspentAt 1)]
  have second := (c.unspentAt 1).toNat_le
  unfold CodesAlike varIntBounds
  simp only [List.forall_mem_cons, List.not_mem_nil, false_implies, implies_true, and_true]
  rw [flags]
  omega

/-- The size is what is written exactly when the two header codes are written with as many bytes. -/
theorem getSerializeSize_true_iff (keys : PubKeys) (c : CCoins) (unpruned : c.isPruned = false) :
    ((∃ writes, c.serialize keys = some writes ∧ c.getSerializeSize keys = some writes.bytes.length) ↔ c.CodesAlike) ∧
      (c.headerGroups < 2 ^ 28 → (c.CodesAlike ↔
        c.headerGroups ≤ 7 ∨ 16 ≤ c.headerGroups + (c.unspentAt 1).toNat ∧ c.headerGroups ≤ 1031 ∨
          2064 ≤ c.headerGroups + (c.unspentAt 1).toNat ∧ c.headerGroups ≤ 132103 ∨
          264208 ≤ c.headerGroups + (c.unspentAt 1).toNat ∧ c.headerGroups ≤ 16909319 ∨
          33818640 ≤ c.headerGroups + (c.unspentAt 1).toNat)) := by
  refine ⟨?_, codesAlike_iff⟩
  obtain ⟨writes, nSize, written, sized, total⟩ := size_of_serialize keys unpruned
  have lengths : getSizeOfVarInt c.sizeCode = getSizeOfVarInt c.headerCode ↔ c.CodesAlike := by
    rw [headerCode_eq, sizeCode_eq, getSizeOfVarInt_bounds (Nat.mod_lt _ (by omega)), getSizeOfVarInt_bounds (Nat.mod_lt _ (by omega)),
      Nat.add_right_cancel_iff]
    exact filter_length_eq_iff _ _
  rw [← lengths]
  constructor
  · rintro ⟨writes', written', sized'⟩
    obtain rfl := Option.some.inj (written.symm.trans written')
    have same := Option.some.inj (sized.symm.trans sized')
    omega
  · intro same
    exact ⟨writes, written, sized.trans (congrArg some (by omega))⟩

theorem generatorCoins_size : (∃ writes, generatorCoins.serialize generatorKeys = some writes ∧
      generatorCoins.getSerializeSize generatorKeys = some writes.bytes.length) ∧ generatorCoins.headerGroups = 1 := by
  have few : generatorCoins.headerGroups = 1 := by decide
  obtain ⟨iff, spans⟩ := getSerializeSize_true_iff generatorKeys generatorCoins generatorCoins_storable.unpruned
  exact ⟨iff.mpr ((spans (by rw [few]; decide)).mpr (Or.inl (by rw [few]; decide))), few⟩

/-- Sixty-six outputs that are all left: eight groups after the first two. -/
theorem freeCoins_size_short : (freeCoins 8).isPruned = false ∧ ∃ writes, (freeCoins 8).serialize noKeys = some writes ∧
    (freeCoins 8).getSerializeSize noKeys = some (writes.bytes.length - 1) ∧ 0 < writes.bytes.length := by
  have unpruned := (freeCoins_storable 8).unpruned
  obtain ⟨writes, nSize, written, sized, total⟩ := size_of_serialize noKeys unpruned
  have first : (freeCoins 8).unspentAt 0 = true := freeCoins_unspentAt (by omega)
  have second : (freeCoins 8).unspentAt 1 = true := freeCoins_unspentAt (by omega)
  have groups : (freeCoins 8).headerGroups = 8 := by
    rw [headerGroups, ← usedGroups_eq, freeCoins_maskCode, first]
    rfl
  have flags : (freeCoins 8).headerFlags = 12 := by
    rw [headerFlags, first, second]
    rfl
  have two : getSizeOfVarInt (freeCoins 8).headerCode = 2 := by
    rw [headerCode_eq, groups, flags, getSizeOfVarInt_bounds (by omega)]
    rfl
  have one : getSizeOfVarInt (freeCoins 8).sizeCode = 1 := by
    rw [sizeCode_eq, groups, flags, getSizeOfVarInt_bounds (by omega)]
    rfl
  rw [one, two] at total
  exact ⟨unpruned, writes, written, sized.trans (congrArg some (by omega)), by omega⟩

end CCoins

end SchillingCoin
