import SchillingCoin.Coins.Stored
import SchillingCoin.Validation.ConnectBlock

/-!
The stored form of the undo records of a block, after `undo.h`. `CTxUndo` and `CBlockUndo` are vectors, and their size is counted while they
are written; `CTxInUndo` computes its own.
-/

namespace SchillingCoin

open Codec DataStream

namespace CTxInUndo

def nCode (undo : CTxInUndo) : Nat :=
  ((undo.nHeight * 4 + (if undo.fCoinBase then 2 else 0) + (if undo.fCoinStake then 1 else 0)) % 2 ^ 32).toNat

def getSerializeSize (keys : PubKeys) (undo : CTxInUndo) : Nat :=
  getSizeOfVarInt undo.nCode + (if 0 < undo.nHeight then getSizeOfVarInt undo.nVersion else 0) +
    (CTxOutCompressor.serialize keys undo.txout).size

def serialize (keys : PubKeys) (undo : CTxInUndo) : Writes :=
  writeVarInt undo.nCode ++ (if 0 < undo.nHeight then writeVarInt undo.nVersion else []) ++ CTxOutCompressor.serialize keys undo.txout

/-- Without a height the version stays what the constructor has set. -/
def readVersion (nHeight : Nat) : StreamReader Int := if 0 < nHeight then readVarInt32 else pure 0

def unserialize (keys : PubKeys) : StreamReader CTxInUndo := do
  let nCode ← readVarInt (2 ^ 32)
  let nVersion ← readVersion (nCode / 4)
  let txout ← CTxOutCompressor.unserialize keys
  return { txout, fCoinBase := nCode.testBit 1, fCoinStake := nCode.testBit 0, nHeight := (nCode / 4 : Nat), nVersion }

end CTxInUndo

namespace CTxUndo

def serialize (keys : PubKeys) (txundo : CTxUndo) : Writes := serializeVector (CTxInUndo.serialize keys) txundo

def unserialize (keys : PubKeys) : StreamReader CTxUndo := unserializeVector 56 (CTxInUndo.unserialize keys)

end CTxUndo

abbrev CBlockUndo := List CTxUndo

namespace CBlockUndo

def serialize (keys : PubKeys) (vtxundo : CBlockUndo) : Writes := serializeVector (CTxUndo.serialize keys) vtxundo

def unserialize (keys : PubKeys) : StreamReader CBlockUndo := unserializeVector 24 (CTxUndo.unserialize keys)

def getSerializeSize (keys : PubKeys) (vtxundo : CBlockUndo) : Nat := (serialize keys vtxundo).size

end CBlockUndo

namespace CTxInUndo

variable {undo : CTxInUndo}

structure Restorable (network : Network) (undo : CTxInUndo) : Prop where
  nHeight : 0 ≤ undo.nHeight ∧ undo.nHeight < 2 ^ 30
  nVersion : 0 ≤ undo.nVersion ∧ undo.nVersion < 2 ^ 31
  unversioned : undo.nHeight = 0 → undo.nVersion = 0
  value : network.consensus.moneyRange undo.txout.nValue = true
  script : undo.txout.scriptPubKey.length ≤ MAX_SCRIPT_SIZE

def readBack (undo : CTxInUndo) : CTxInUndo := { undo with txout := { undo.txout with nRounds := -10 } }

theorem nCode_read (nHeight : 0 ≤ undo.nHeight ∧ undo.nHeight < 2 ^ 30) : undo.nCode < 2 ^ 32 ∧
    ((undo.nCode / 4 : Nat) : Int) = undo.nHeight ∧ undo.nCode.testBit 1 = undo.fCoinBase ∧ undo.nCode.testBit 0 = undo.fCoinStake := by
  have flag (x : Bool) (n : Nat) (same : n = x.toNat) : decide (n = 1) = x := by
    cases x <;> simp [same]
  obtain ⟨height, same⟩ := Int.eq_ofNat_of_zero_le nHeight.1
  have base := undo.fCoinBase.toNat_le
  have stake := undo.fCoinStake.toNat_le
  have whole : undo.nCode = height * 4 + 2 * undo.fCoinBase.toNat + undo.fCoinStake.toNat := by
    unfold nCode
    rw [same]
    cases undo.fCoinBase
    all_goals cases undo.fCoinStake
    all_goals simp only [Bool.toNat_false, Bool.toNat_true, if_true, if_false, reduceCtorEq]
    all_goals omega
  rw [whole]
  refine ⟨by omega, by omega, ?_, ?_⟩
  · rw [Nat.testBit_eq_decide_div_mod_eq]
    exact flag _ _ (by omega)
  · rw [Nat.testBit_eq_decide_div_mod_eq]
    exact flag _ _ (by omega)

theorem readVersion_reads (nHeight : 0 ≤ undo.nHeight) (nVersion : 0 ≤ undo.nVersion ∧ undo.nVersion < 2 ^ 31)
    (unversioned : undo.nHeight = 0 → undo.nVersion = 0) {height : Nat} (same : (height : Int) = undo.nHeight) :
    Reads (readVersion height) undo.nVersion (Writes.bytes (if 0 < undo.nHeight then writeVarInt undo.nVersion else [])) := by
  unfold readVersion
  by_cases positive : 0 < undo.nHeight
  · rw [if_pos positive, if_pos (by omega)]
    exact readVarInt32_reads nVersion.1 nVersion.2
  · rw [if_neg positive, if_neg (by omega), unversioned (by omega)]
    exact Reads.pure 0

theorem unserialize_reads (inverts : keys.Inverts) (restorable : undo.Restorable network) :
    Reads (unserialize keys) undo.readBack (undo.serialize keys).bytes := by
  obtain ⟨small, height, base, stake⟩ := nCode_read restorable.nHeight
  have version := readVersion_reads restorable.nHeight.1 restorable.nVersion restorable.unversioned height
  have range := CCoins.moneyRange_bounds restorable.value
  have txout := CTxOutCompressor.unserialize_reads inverts range.1 range.2 restorable.script
  have back : undo.readBack = { txout := { undo.txout with nRounds := -10 }, fCoinBase := undo.nCode.testBit 1,
                                fCoinStake := undo.nCode.testBit 0, nHeight := (undo.nCode / 4 : Nat), nVersion := undo.nVersion } := by
    rw [base, stake, height]
    rfl
  rw [serialize, Writes.bytes_append, Writes.bytes_append, List.append_assoc, back]
  exact (readVarInt_reads small).bind (version.bind txout.bind_pure)

theorem getSerializeSize_eq (keys : PubKeys) (undo : CTxInUndo) : undo.getSerializeSize keys = (undo.serialize keys).bytes.length := by
  unfold getSerializeSize serialize
  rw [Writes.bytes_append, Writes.bytes_append, List.length_append, List.length_append, Writes.size_eq_length, getSizeOfVarInt_eq]
  split
  · rw [getSizeOfVarInt_eq]
  · rfl

end CTxInUndo

namespace CBlockUndo

variable {vtxundo : CBlockUndo}

def readBack (vtxundo : CBlockUndo) : CBlockUndo := vtxundo.map fun txundo => txundo.map CTxInUndo.readBack

theorem serialize_readBack (keys : PubKeys) (vtxundo : CBlockUndo) : serialize keys vtxundo.readBack = serialize keys vtxundo := by
  have tx : ∀ txundo : CTxUndo, CTxUndo.serialize keys (txundo.map CTxInUndo.readBack) = CTxUndo.serialize keys txundo := by
    intro txundo
    unfold CTxUndo.serialize serializeVector
    rw [List.length_map, List.flatMap_map]
    rfl
  unfold serialize serializeVector readBack
  rw [List.length_map, List.flatMap_map]
  congr 1
  exact List.flatMap_congr fun txundo _ => tx txundo

theorem unserialize_reads (inverts : keys.Inverts)
    (restorable : ∀ txundo ∈ vtxundo, ∀ undo ∈ txundo, CTxInUndo.Restorable network undo) (few : vtxundo.length ≤ MAX_SIZE)
    (fewInputs : ∀ txundo ∈ vtxundo, txundo.length ≤ MAX_SIZE) :
    Reads (unserialize keys) vtxundo.readBack (serialize keys vtxundo).bytes := by
  rw [← serialize_readBack]
  apply unserializeVector_reads (by decide)
  · rw [readBack, List.length_map]
    exact few
  intro txundo' member
  obtain ⟨txundo, inBlock, rfl⟩ := List.mem_map.mp member
  apply unserializeVector_reads (by decide)
  · rw [List.length_map]
    exact fewInputs txundo inBlock
  intro undo' member'
  obtain ⟨undo, inTx, rfl⟩ := List.mem_map.mp member'
  exact CTxInUndo.unserialize_reads inverts (restorable txundo inBlock undo inTx)

theorem readBack_eq (fresh : ∀ txundo ∈ vtxundo, ∀ undo ∈ txundo, undo.txout.nRounds = -10) : vtxundo.readBack = vtxundo := by
  have tx : ∀ txundo ∈ vtxundo, txundo.map CTxInUndo.readBack = txundo := by
    intro txundo inBlock
    refine (List.map_congr_left fun undo inTx => ?_).trans (List.map_id txundo)
    rw [CTxInUndo.readBack, ← fresh txundo inBlock undo inTx]
    rfl
  exact (List.map_congr_left tx).trans (List.map_id vtxundo)

theorem unserialize_length (done : unserialize keys bytes = .ok (vtxundo, rest)) : vtxundo.length ≤ MAX_SIZE :=
  unserializeVector_length (by decide) done

/-- Undo records are read back to their last byte, but for what is only in memory, and the sizes are those of the bytes. -/
theorem undo_records_lossless {network : Network} {keys : PubKeys} {vtxundo : CBlockUndo} (inverts : keys.Inverts)
    (restorable : ∀ txundo ∈ vtxundo, ∀ undo ∈ txundo, CTxInUndo.Restorable network undo) (few : vtxundo.length ≤ MAX_SIZE)
    (fewInputs : ∀ txundo ∈ vtxundo, txundo.length ≤ MAX_SIZE) :
    (∀ rest, unserialize keys ((serialize keys vtxundo).bytes ++ rest) = .ok (vtxundo.readBack, rest)) ∧
      ((∀ txundo ∈ vtxundo, ∀ undo ∈ txundo, undo.txout.nRounds = -10) → vtxundo.readBack = vtxundo) ∧
      getSerializeSize keys vtxundo = (serialize keys vtxundo).bytes.length ∧
      ∀ undo : CTxInUndo, undo.getSerializeSize keys = (undo.serialize keys).bytes.length :=
  ⟨unserialize_reads inverts restorable few fewInputs, readBack_eq, Writes.size_eq_length _, CTxInUndo.getSerializeSize_eq keys⟩

def generatorUndo : CBlockUndo :=
  [[{ txout := { nValue := 250 * COIN, scriptPubKey := [65] ++ CCoins.generatorKey ++ [0xac] }, fCoinStake := true, nHeight := 203998, nVersion := 1 },
    { txout := { nValue := 7, scriptPubKey := [0x51] } }], []]

theorem generatorUndo_restorable : ∀ txundo ∈ generatorUndo, ∀ undo ∈ txundo, CTxInUndo.Restorable .main undo := by
  intro txundo inBlock undo inTx
  simp only [generatorUndo, List.mem_cons, List.not_mem_nil, or_false] at inBlock
  rcases inBlock with rfl | rfl
  · simp only [List.mem_cons, List.not_mem_nil, or_false] at inTx
    rcases inTx with rfl | rfl
    · exact ⟨by decide, by decide, by decide, by decide, by decide⟩
    · exact ⟨by decide, by decide, by decide, by decide, by decide⟩
  · nomatch inTx

theorem generatorUndo_lossless : unserialize CCoins.generatorKeys ((serialize CCoins.generatorKeys generatorUndo).bytes ++ [0x07]) =
    .ok (generatorUndo, [0x07]) := by
  obtain ⟨read, fresh, _⟩ := undo_records_lossless CCoins.generatorKeys_inverts generatorUndo_restorable (by decide) (by decide)
  rw [fresh (by decide)] at read
  exact read [0x07]

/-- A mixed output loses its rounds, and more records than `MAX_SIZE` are written but not read. -/
theorem undo_records_lost :
    (∃ undo : CTxInUndo, undo.Restorable .main ∧ ∀ rest,
      unserialize CCoins.generatorKeys (serialize CCoins.generatorKeys [[undo]]).bytes ≠ .ok ([[undo]], rest)) ∧
    ∀ rest, unserialize CCoins.generatorKeys (serialize CCoins.generatorKeys (List.replicate (MAX_SIZE + 1) [])).bytes ≠
      .ok (List.replicate (MAX_SIZE + 1) [], rest) := by
  constructor
  · have restorable : CTxInUndo.Restorable .main { txout := { nValue := 7, scriptPubKey := [0x51], nRounds := 2 } } :=
      ⟨by decide, by decide, by decide, by decide, by decide⟩
    refine ⟨_, restorable, fun rest same => ?_⟩
    have read := unserialize_reads CCoins.generatorKeys_inverts
      (show ∀ txundo ∈ [[_]], ∀ undo ∈ txundo, CTxInUndo.Restorable .main undo by simpa using restorable) (by decide) (by decide) []
    rw [List.append_nil, same] at read
    have records := congrArg Prod.fst (Except.ok.inj read)
    dsimp only at records
    exact absurd records (by decide)
  · intro rest done
    have few := unserialize_length done
    rw [List.length_replicate] at few
    omega

end CBlockUndo

end SchillingCoin
