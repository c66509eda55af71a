import Mathlib.Data.Set.List
import SchillingCoin.Primitives.LevelDB
import SchillingCoin.Primitives.VarInt
import SchillingCoin.Primitives.Wire
import SchillingCoin.Lib.StdMap

/-!
The block index on disk, after `CDiskBlockIndex` in `chain.h` and `CBlockTreeDB::LoadBlockIndexGuts` in `txdb.cpp`. An entry here has
all the fields that are written; those that live in memory only are left out. The two hash functions and the proof of work are parameters.
-/

namespace SchillingCoin

namespace BlockTreeDB

open Codec Wire DataStream

def CLIENT_VERSION : Int := 2000000

def DBI_OLD_SER_VERSION : Int := 1040000

inductive CoinDenomination where
  | ZQ_ERROR
  | ZQ_ONE
  | ZQ_FIVE
  | ZQ_TEN
  | ZQ_FIFTY
  | ZQ_ONE_HUNDRED
  | ZQ_FIVE_HUNDRED
  | ZQ_ONE_THOUSAND
  | ZQ_FIVE_THOUSAND
  deriving DecidableEq, Repr

namespace CoinDenomination

def toInt : CoinDenomination → Int
  | ZQ_ERROR => 0
  | ZQ_ONE => 1
  | ZQ_FIVE => 5
  | ZQ_TEN => 10
  | ZQ_FIFTY => 50
  | ZQ_ONE_HUNDRED => 100
  | ZQ_FIVE_HUNDRED => 500
  | ZQ_ONE_THOUSAND => 1000
  | ZQ_FIVE_THOUSAND => 5000

def ofInt (amount : Int) : CoinDenomination :=
  if amount = 1 then ZQ_ONE
  else if amount = 5 then ZQ_FIVE
  else if amount = 10 then ZQ_TEN
  else if amount = 50 then ZQ_FIFTY
  else if amount = 100 then ZQ_ONE_HUNDRED
  else if amount = 500 then ZQ_FIVE_HUNDRED
  else if amount = 1000 then ZQ_ONE_THOUSAND
  else if amount = 5000 then ZQ_FIVE_THOUSAND
  else ZQ_ERROR

theorem ofInt_toInt (denom : CoinDenomination) : ofInt denom.toInt = denom := by
  cases denom <;> rfl

theorem toInt_injective : Function.Injective toInt := fun a b same => by rw [← ofInt_toInt a, same, ofInt_toInt]

instance : LinearOrder CoinDenomination := LinearOrder.lift' toInt toInt_injective

theorem toInt_small (denom : CoinDenomination) : InInt 4 denom.toInt := by
  unfold InInt
  cases denom <;> decide

end CoinDenomination

def zerocoinDenomList : List CoinDenomination :=
  [.ZQ_ONE, .ZQ_FIVE, .ZQ_TEN, .ZQ_FIFTY, .ZQ_ONE_HUNDRED, .ZQ_FIVE_HUNDRED, .ZQ_ONE_THOUSAND, .ZQ_FIVE_THOUSAND]

abbrev ZerocoinSupply := OrderedStore CoinDenomination Int

def clearMapZcSupply : ZerocoinSupply := zerocoinDenomList.foldl (fun m denom => m.insertNew denom 0) ∅

structure BlockFields where
  nHeight : Int := 0
  nFile : Int := 0
  nDataPos : Nat := 0
  nUndoPos : Nat := 0
  nTx : Nat := 0
  nStatus : Nat := 0
  vStakeModifier : List UInt8 := []
  nMoneySupply : Int := 0
  nFlags : Nat := 0
  nVersion : Int := 0
  hashMerkleRoot : uint256 := 0
  nTime : Nat := 0
  nBits : Nat := 0
  nNonce : Nat := 0
  nAccumulatorCheckpoint : uint256 := 0
  mapZerocoinSupply : ZerocoinSupply := clearMapZcSupply

namespace BlockFields

variable (d : BlockFields)

def haveData : Bool := d.nStatus.testBit 3

def haveUndo : Bool := d.nStatus.testBit 4

def isProofOfStake : Bool := d.nFlags.testBit 0

/-- The header under a given parent; the checkpoint counts for version 4 only. -/
def header (hashPrevBlock : uint256) : CBlockHeader where
  nVersion := d.nVersion
  hashPrevBlock := hashPrevBlock
  hashMerkleRoot := d.hashMerkleRoot
  nTime := d.nTime
  nBits := d.nBits
  nNonce := d.nNonce
  nAccumulatorCheckpoint := if d.nVersion = 4 then d.nAccumulatorCheckpoint else 0

end BlockFields

structure CBlockIndex extends BlockFields where
  /-- `*phashBlock`. -/
  phashBlock : uint256
  pprev : Option uint256 := none

def CBlockIndex.getBlockHeader (pindex : CBlockIndex) : CBlockHeader := pindex.header (pindex.pprev.getD 0)

structure CDiskBlockIndex extends BlockFields where
  hashPrev : uint256 := 0

namespace CDiskBlockIndex

def ofIndex (pindex : CBlockIndex) : CDiskBlockIndex := { pindex.toBlockFields with hashPrev := pindex.pprev.getD 0 }

def getBlockHash (xevan hash256 : List UInt8 → uint256) (d : CDiskBlockIndex) : uint256 := (d.header d.hashPrev).getHash xevan hash256

def serializeSupply (m : ZerocoinSupply) : Writes :=
  writeCompactSize m.entries.length ++ m.entries.flatMap fun e => [intBytes 4 e.1.toInt, intBytes 8 e.2]

variable (d : CDiskBlockIndex) (isStakeModifierV2 : Int → Bool)

def serializeVersioned : Writes :=
  [intBytes 8 d.nMoneySupply, leBytes 4 d.nFlags, intBytes 4 d.nVersion] ++ serializeBytes d.vStakeModifier ++
    [uint256Bytes d.hashPrev, uint256Bytes d.hashMerkleRoot, leBytes 4 d.nTime, leBytes 4 d.nBits, leBytes 4 d.nNonce] ++
    if d.nVersion > 3 then
      serializeSupply d.mapZerocoinSupply ++ if d.nVersion = 4 then [uint256Bytes d.nAccumulatorCheckpoint] else []
    else []

/-- The format of old versions, with the values that stand for what an entry no longer has. -/
def serializeOld (d : CDiskBlockIndex) : Writes :=
  [intBytes 8 0, intBytes 8 d.nMoneySupply, leBytes 4 d.nFlags] ++
    (if !isStakeModifierV2 d.nHeight then [leBytes 8 0] else [uint256Bytes 0]) ++
    (if d.isProofOfStake then serializeOutPoint { hash := 0, n := 0xffffffff } ++ [leBytes 4 0] else []) ++
    [intBytes 4 d.nVersion, uint256Bytes d.hashPrev, uint256Bytes 0, uint256Bytes d.hashMerkleRoot, leBytes 4 d.nTime, leBytes 4 d.nBits,
      leBytes 4 d.nNonce] ++
    if d.nVersion > 3 then [uint256Bytes d.nAccumulatorCheckpoint] ++ serializeSupply d.mapZerocoinSupply ++ writeCompactSize 0 else []

def serialize (nSerVersion : Int) (d : CDiskBlockIndex) : Writes :=
  writeVarInt nSerVersion ++ writeVarInt d.nHeight ++ writeVarInt d.nStatus ++ writeVarInt d.nTx ++
    (if d.haveData || d.haveUndo then writeVarInt d.nFile else []) ++
    (if d.haveData then writeVarInt d.nDataPos else []) ++
    (if d.haveUndo then writeVarInt d.nUndoPos else []) ++
    if nSerVersion ≥ DBI_OLD_SER_VERSION then d.serializeVersioned else d.serializeOld isStakeModifierV2

def readIf {α : Type} (present : Bool) (read : StreamReader α) (old : α) : StreamReader α := if present then read else pure old

def readDenomination : StreamReader CoinDenomination := do
  let f ← readInt 4
  return CoinDenomination.ofInt f

def readSupplyItem : StreamReader (CoinDenomination × Int) := do
  let denom ← readDenomination
  let supply ← readInt 8
  return (denom, supply)

def unserializeSupply : StreamReader ZerocoinSupply := do
  let nSize ← readCompactSize
  let items ← many readSupplyItem nSize
  return items.foldl (fun m item => m.insertNew item.1 item.2) ∅

/-- Where the block is; the version under which it was written comes first. -/
def unserializePlace : StreamReader (Int × CDiskBlockIndex) := do
  let nSerVersion ← readVarInt32
  let nHeight ← readVarInt32
  let nStatus ← readVarInt (2 ^ 32)
  let nTx ← readVarInt (2 ^ 32)
  let d : CDiskBlockIndex := { nHeight, nStatus, nTx }
  let nFile ← readIf (d.haveData || d.haveUndo) readVarInt32 d.nFile
  let nDataPos ← readIf d.haveData (readVarInt (2 ^ 32)) d.nDataPos
  let nUndoPos ← readIf d.haveUndo (readVarInt (2 ^ 32)) d.nUndoPos
  return (nSerVersion, { d with nFile, nDataPos, nUndoPos })

def unserializeVersioned : StreamReader CDiskBlockIndex := do
  let nMoneySupply ← readInt 8
  let nFlags ← readUInt 4
  let nVersion ← readInt 4
  let vStakeModifier ← unserializeBytes
  let hashPrev ← readUInt256
  let hashMerkleRoot ← readUInt256
  let nTime ← readUInt 4
  let nBits ← readUInt 4
  let nNonce ← readUInt 4
  let mapZerocoinSupply ← readIf (nVersion > 3) unserializeSupply d.mapZerocoinSupply
  let nAccumulatorCheckpoint ← readIf (nVersion = 4) readUInt256 d.nAccumulatorCheckpoint
  return { d with
    nMoneySupply, nFlags, nVersion, vStakeModifier, hashPrev, hashMerkleRoot, nTime, nBits, nNonce, mapZerocoinSupply,
    nAccumulatorCheckpoint }

/-- `SetStakeModifier` with what is read: eight bytes before the height of the second kind of modifiers, and 32 from it on. -/
def unserializeOldModifier (isV2 : Bool) : StreamReader (List UInt8) := do
  if isV2 then
    let nStakeModifierV2 ← readUInt256
    return uint256Bytes nStakeModifierV2
  else
    let nStakeModifier ← readUInt 8
    return leBytes 8 nStakeModifier

def skipStake : StreamReader Unit := do
  let _prevoutStake ← unserializeOutPoint
  let _nStakeTime ← readUInt 4
  return ()

def skipMints : StreamReader Unit := do
  let _vMintDenominationsInBlock ← unserializeVector 4 readDenomination
  return ()

def unserializeOld (d : CDiskBlockIndex) : StreamReader CDiskBlockIndex := do
  let _nMint ← readInt 8
  let nMoneySupply ← readInt 8
  let nFlags ← readUInt 4
  let vStakeModifier ← unserializeOldModifier (isStakeModifierV2 d.nHeight)
  let d := { d with nMoneySupply, nFlags, vStakeModifier }
  let _stake ← readIf d.isProofOfStake skipStake ()
  let nVersion ← readInt 4
  let hashPrev ← readUInt256
  let _hashNext ← readUInt256
  let hashMerkleRoot ← readUInt256
  let nTime ← readUInt 4
  let nBits ← readUInt 4
  let nNonce ← readUInt 4
  let nAccumulatorCheckpoint ← readIf (nVersion > 3) readUInt256 d.nAccumulatorCheckpoint
  let mapZerocoinSupply ← readIf (nVersion > 3) unserializeSupply d.mapZerocoinSupply
  let _mints ← readIf (nVersion > 3) skipMints ()
  return { d with nVersion, hashPrev, hashMerkleRoot, nTime, nBits, nNonce, nAccumulatorCheckpoint, mapZerocoinSupply }

def unserialize : StreamReader CDiskBlockIndex := do
  let place ← unserializePlace
  if place.1 ≥ DBI_OLD_SER_VERSION then unserializeVersioned place.2 else unserializeOld isStakeModifierV2 place.2

end CDiskBlockIndex

abbrev BlockMap := StdMap uint256 CBlockIndex

/-- The type `'b'` of the records of block index entries. -/
def DB_BLOCK_INDEX : UInt8 := 0x62

inductive LoadFailure where
  | deserialize (e : StreamFailure)
  /-- A field of an entry with the null hash would be set through a null pointer. -/
  | nullEntry
  | proofOfWork (hash : uint256)
  deriving DecidableEq, Repr

def insertBlockIndex (map : BlockMap) (hash : uint256) : Option uint256 × BlockMap :=
  if hash = 0 then (none, map)
  else if (map.lookup hash).isSome then (some hash, map)
  else (some hash, map.insert hash { phashBlock := hash })

def copyFields (diskindex : CDiskBlockIndex) (pprev : Option uint256) (pindexNew : CBlockIndex) : CBlockIndex :=
  { pindexNew with
    pprev
    nHeight := diskindex.nHeight
    nFile := diskindex.nFile
    nDataPos := diskindex.nDataPos
    nUndoPos := diskindex.nUndoPos
    nVersion := diskindex.nVersion
    hashMerkleRoot := diskindex.hashMerkleRoot
    nTime := diskindex.nTime
    nBits := diskindex.nBits
    nNonce := diskindex.nNonce
    nStatus := diskindex.nStatus
    nTx := diskindex.nTx
    nAccumulatorCheckpoint := diskindex.nAccumulatorCheckpoint
    mapZerocoinSupply := diskindex.mapZerocoinSupply
    nMoneySupply := diskindex.nMoneySupply
    nFlags := diskindex.nFlags
    vStakeModifier := diskindex.vStakeModifier }

section Load

variable (xevan hash256 : List UInt8 → uint256) (isStakeModifierV2 : Int → Bool)

def loadRecord (map : BlockMap) (slValue : Slice) : Except LoadFailure (BlockMap × CBlockIndex) :=
  match CDiskBlockIndex.unserialize isStakeModifierV2 slValue.data with
  | .error e => .error (.deserialize e)
  | .ok (diskindex, _) =>
    match insertBlockIndex map (diskindex.getBlockHash xevan hash256) with
    | (none, _) => .error .nullEntry
    | (some hash, map) =>
      let prev := insertBlockIndex map diskindex.hashPrev
      match prev.2.lookup hash with
      | none => .error .nullEntry
      | some pindexNew =>
        let pindexNew := copyFields diskindex prev.1 pindexNew
        .ok (prev.2.insert hash pindexNew, pindexNew)

/-- The loop over the records the cursor passes, from `('b', null)` on. -/
def loadRecords (checkProofOfWork : uint256 → Nat → Bool) (height_last_PoW : Int) : List (Slice × Slice) → BlockMap →
    Except LoadFailure BlockMap
  | [], map => .ok map
  | (slKey, slValue) :: records, map =>
    match slKey.data with
    | [] => .error (.deserialize .endOfData)
    | chType :: _ =>
      if chType = DB_BLOCK_INDEX then
        match loadRecord xevan hash256 isStakeModifierV2 map slValue with
        | .error e => .error e
        | .ok (map, pindexNew) =>
          if pindexNew.nHeight ≤ height_last_PoW ∧ checkProofOfWork pindexNew.phashBlock pindexNew.nBits = false then
            .error (.proofOfWork pindexNew.phashBlock)
          else loadRecords checkProofOfWork height_last_PoW records map
      else .ok map

def loadBlockIndexGuts (checkProofOfWork : uint256 → Nat → Bool) (height_last_PoW : Int) (db : OrderedStore Slice Slice) (map : BlockMap) :
    Except LoadFailure BlockMap :=
  loadRecords xevan hash256 isStakeModifierV2 checkProofOfWork height_last_PoW (db.seek ⟨DB_BLOCK_INDEX :: uint256Bytes 0⟩) map

end Load

structure BlockFields.Fits (d : BlockFields) : Prop where
  height : 0 ≤ d.nHeight ∧ d.nHeight < 2 ^ 31
  file : 0 ≤ d.nFile ∧ d.nFile < 2 ^ 31
  dataPos : d.nDataPos < 2 ^ 32
  undoPos : d.nUndoPos < 2 ^ 32
  tx : d.nTx < 2 ^ 32
  status : d.nStatus < 2 ^ 32
  modifier : d.vStakeModifier.length ≤ MAX_SIZE
  moneySupply : InInt 8 d.nMoneySupply
  flags : d.nFlags < 2 ^ 32
  version : InInt 4 d.nVersion
  time : d.nTime < 2 ^ 32
  bits : d.nBits < 2 ^ 32
  nonce : d.nNonce < 2 ^ 32
  supply : ∀ denom supply, d.mapZerocoinSupply.get denom = some supply → InInt 8 supply

structure BlockFields.Placed (d : BlockFields) : Prop where
  file : (d.haveData || d.haveUndo) = false → d.nFile = 0
  data : d.haveData = false → d.nDataPos = 0
  undo : d.haveUndo = false → d.nUndoPos = 0

theorem readIf_reads {read : StreamReader α} (reads : present = true → Reads read x writes.bytes)
    (same : present = false → x = old) :
    Reads (CDiskBlockIndex.readIf present read old) x (Writes.bytes (if present then writes else [])) := by
  cases present with
  | true => exact reads rfl
  | false =>
    rw [same rfl]
    exact Reads.pure old

theorem readDenomination_reads (denom : CoinDenomination) : Reads CDiskBlockIndex.readDenomination denom (intBytes 4 denom.toInt) := by
  have read := @Reads.bind_pure _ _ _ _ _ _ CoinDenomination.ofInt (readInt_reads (by decide) denom.toInt_small)
  rwa [CoinDenomination.ofInt_toInt] at read

theorem length_supply (m : ZerocoinSupply) : m.entries.length ≤ 9 := by
  have keys : (m.entries.map (·.1)).Nodup := by
    rw [List.Nodup, List.pairwise_map]
    exact m.sorted.imp fun less => less.ne
  have all : ∀ denom ∈ m.entries.map (·.1), denom ∈ CoinDenomination.ZQ_ERROR :: zerocoinDenomList := by
    intro denom _
    cases denom <;> decide
  have few := (List.subperm_of_subset keys all).length_le
  rw [List.length_map] at few
  exact few

theorem unserializeSupply_reads (fits : ∀ denom supply, m.get denom = some supply → InInt 8 supply) :
    Reads CDiskBlockIndex.unserializeSupply m (CDiskBlockIndex.serializeSupply m).bytes := by
  have few := length_supply m
  have items : Reads (many CDiskBlockIndex.readSupplyItem m.entries.length) m.entries
      (m.entries.flatMap fun e => intBytes 4 e.1.toInt ++ intBytes 8 e.2) := by
    apply many_reads
    intro e member
    exact (readDenomination_reads e.1).bind (readInt_reads (by decide) (fits e.1 e.2 (OrderedStore.mem_entries_iff.mp member))).bind_pure
  have wire : (CDiskBlockIndex.serializeSupply m).bytes = (writeCompactSize m.entries.length).bytes ++
      m.entries.flatMap fun e => intBytes 4 e.1.toInt ++ intBytes 8 e.2 := by
    rw [CDiskBlockIndex.serializeSupply, Writes.bytes_append, Writes.bytes_flatMap]
    simp
  have limit : MAX_SIZE = 33554432 := rfl
  have built := @Reads.bind_pure _ _ _ _ _ _ (fun items => items.foldl (fun m item => OrderedStore.insertNew m item.1 item.2) (∅ : ZerocoinSupply)) items
  rw [OrderedStore.foldl_insertNew_entries] at built
  rw [wire]
  exact (readCompactSize_reads (by omega)).bind built

theorem bytes_placed (isStakeModifierV2 : Int → Bool) (d : CDiskBlockIndex) :
    (d.serialize isStakeModifierV2 CLIENT_VERSION).bytes =
      ((writeVarInt CLIENT_VERSION).bytes ++ ((writeVarInt d.nHeight).bytes ++ ((writeVarInt d.nStatus).bytes ++ ((writeVarInt d.nTx).bytes ++
        (Writes.bytes (if d.haveData || d.haveUndo then writeVarInt d.nFile else []) ++
          (Writes.bytes (if d.haveData then writeVarInt d.nDataPos else []) ++
            Writes.bytes (if d.haveUndo then writeVarInt d.nUndoPos else []))))))) ++ d.serializeVersioned.bytes := by
  have current : CLIENT_VERSION ≥ DBI_OLD_SER_VERSION := by decide
  simp only [CDiskBlockIndex.serialize, if_pos current, Writes.bytes_append, List.append_assoc]

def place (d : CDiskBlockIndex) : CDiskBlockIndex :=
  { nHeight := d.nHeight, nStatus := d.nStatus, nTx := d.nTx, nFile := d.nFile, nDataPos := d.nDataPos, nUndoPos := d.nUndoPos }

variable {d : CDiskBlockIndex}

theorem unserializePlace_reads (fits : d.Fits) (placed : d.Placed) :
    Reads CDiskBlockIndex.unserializePlace (CLIENT_VERSION, place d)
      ((writeVarInt CLIENT_VERSION).bytes ++ ((writeVarInt d.nHeight).bytes ++ ((writeVarInt d.nStatus).bytes ++ ((writeVarInt d.nTx).bytes ++
        (Writes.bytes (if d.haveData || d.haveUndo then writeVarInt d.nFile else []) ++
          (Writes.bytes (if d.haveData then writeVarInt d.nDataPos else []) ++
            Writes.bytes (if d.haveUndo then writeVarInt d.nUndoPos else []))))))) := by
  have file : Reads (CDiskBlockIndex.readIf (d.haveData || d.haveUndo) readVarInt32 0) d.nFile _ :=
    readIf_reads (fun _ => readVarInt32_reads fits.file.1 fits.file.2) placed.file
  have data : Reads (CDiskBlockIndex.readIf d.haveData (readVarInt (2 ^ 32)) 0) d.nDataPos _ :=
    readIf_reads (fun _ => readVarInt_reads fits.dataPos) placed.data
  have undo : Reads (CDiskBlockIndex.readIf d.haveUndo (readVarInt (2 ^ 32)) 0) d.nUndoPos _ :=
    readIf_reads (fun _ => readVarInt_reads fits.undoPos) placed.undo
  unfold CDiskBlockIndex.unserializePlace
  refine (readVarInt32_reads (by decide) (by decide)).bind ?_
  refine (readVarInt32_reads fits.height.1 fits.height.2).bind ?_
  refine (readVarInt_reads fits.status).bind ?_
  refine (readVarInt_reads fits.tx).bind ?_
  exact file.bind (data.bind undo.bind_pure)

theorem unserializeVersioned_reads (fits : d.Fits)
    (checkpoint : d.nVersion ≠ 4 → d.nAccumulatorCheckpoint = 0)
    (supply : d.nVersion ≤ 3 → d.mapZerocoinSupply = clearMapZcSupply) :
    Reads (CDiskBlockIndex.unserializeVersioned (place d)) d d.serializeVersioned.bytes := by
  have number : ∀ {n : Nat}, n < 2 ^ 32 → Reads (readUInt 4) n (leBytes 4 n) := fun small => readUInt_reads (by omega)
  have supplies : Reads (CDiskBlockIndex.readIf (d.nVersion > 3) CDiskBlockIndex.unserializeSupply clearMapZcSupply) d.mapZerocoinSupply _ :=
    readIf_reads (fun _ => unserializeSupply_reads fits.supply) fun low => supply (by simpa using low)
  have checkpoints : Reads (CDiskBlockIndex.readIf (d.nVersion = 4) readUInt256 0) d.nAccumulatorCheckpoint
      (Writes.bytes (if decide (d.nVersion = 4) then [uint256Bytes d.nAccumulatorCheckpoint] else [])) :=
    readIf_reads (fun _ => by simpa using readUInt256_reads d.nAccumulatorCheckpoint) fun other => checkpoint (by simpa using other)
  have wire : d.serializeVersioned.bytes = intBytes 8 d.nMoneySupply ++ (leBytes 4 d.nFlags ++ (intBytes 4 d.nVersion ++
      ((serializeBytes d.vStakeModifier).bytes ++ (uint256Bytes d.hashPrev ++ (uint256Bytes d.hashMerkleRoot ++ (leBytes 4 d.nTime ++
        (leBytes 4 d.nBits ++ (leBytes 4 d.nNonce ++
          (Writes.bytes (if decide (d.nVersion > 3) then CDiskBlockIndex.serializeSupply d.mapZerocoinSupply else []) ++
            Writes.bytes (if decide (d.nVersion = 4) then [uint256Bytes d.nAccumulatorCheckpoint] else [])))))))))) := by
    unfold CDiskBlockIndex.serializeVersioned
    by_cases high : d.nVersion > 3
    · simp [Writes.bytes_append, high]
    · have other : d.nVersion ≠ 4 := by omega
      simp [Writes.bytes_append, high, other]
  rw [wire]
  unfold CDiskBlockIndex.unserializeVersioned
  refine (readInt_reads (by decide) fits.moneySupply).bind ?_
  refine (number fits.flags).bind ?_
  refine (readInt_reads (by decide) fits.version).bind ?_
  refine (unserializeBytes_reads fits.modifier).bind ?_
  refine (readUInt256_reads _).bind ?_
  refine (readUInt256_reads _).bind ?_
  refine (number fits.time).bind ?_
  refine (number fits.bits).bind ?_
  refine (number fits.nonce).bind ?_
  exact supplies.bind checkpoints.bind_pure

theorem unserialize_reads (isStakeModifierV2 : Int → Bool) (fits : d.Fits) (placed : d.Placed)
    (checkpoint : d.nVersion ≠ 4 → d.nAccumulatorCheckpoint = 0)
    (supply : d.nVersion ≤ 3 → d.mapZerocoinSupply = clearMapZcSupply) :
    Reads (CDiskBlockIndex.unserialize isStakeModifierV2) d (d.serialize isStakeModifierV2 CLIENT_VERSION).bytes := by
  rw [bytes_placed]
  unfold CDiskBlockIndex.unserialize
  refine (unserializePlace_reads fits placed).bind ?_
  dsimp only
  rw [if_pos (by decide)]
  exact unserializeVersioned_reads fits checkpoint supply

section Reload

variable {xevan hash256 : List UInt8 → uint256}

/-- An entry as the block index in memory holds it: under the hash of its own header, with the null hash for no block. -/
structure InMemory (xevan hash256 : List UInt8 → uint256) (pindex : CBlockIndex) : Prop where
  fits : pindex.Fits
  hash : pindex.phashBlock = pindex.getBlockHeader.getHash xevan hash256
  known : pindex.phashBlock ≠ 0
  parent : pindex.pprev ≠ some 0

structure Written (pindex : CBlockIndex) : Prop where
  checkpoint : pindex.nVersion ≠ 4 → pindex.nAccumulatorCheckpoint = 0
  supply : pindex.nVersion ≤ 3 → pindex.mapZerocoinSupply = clearMapZcSupply
  placed : pindex.Placed

variable (map : BlockMap) (pindex : CBlockIndex) (isStakeModifierV2 : Int → Bool)

def Keyed : Prop := ∀ hash pindex, map.lookup hash = some pindex → pindex.phashBlock = hash

theorem insertBlockIndex_lookup {hash : uint256} (known : hash ≠ 0) (h : uint256) :
    (insertBlockIndex map hash).2.lookup h = if h = hash then some ((map.lookup hash).getD { phashBlock := hash }) else map.lookup h := by
  unfold insertBlockIndex
  rw [if_neg known]
  split
  · next present =>
    obtain ⟨pindex, found⟩ := Option.isSome_iff_exists.mp present
    split
    · next same => rw [same, found, Option.getD_some]
    · rfl
  · next absent =>
    have none : map.lookup hash = none := by simpa using absent
    rw [StdMap.lookup_insert_ite, none, Option.getD_none]

theorem insertBlockIndex_kept {hash : uint256} {pindex : CBlockIndex} (hash' : uint256)
    (found : map.lookup hash = some pindex) : (insertBlockIndex map hash').2.lookup hash = some pindex := by
  by_cases null : hash' = 0
  · rw [insertBlockIndex, if_pos null]
    exact found
  · rw [insertBlockIndex_lookup map null]
    split
    · next same => rw [← same, found, Option.getD_some]
    · exact found

theorem insertBlockIndex_keyed {map : BlockMap} (keyed : Keyed map) (hash : uint256) : Keyed (insertBlockIndex map hash).2 := by
  by_cases null : hash = 0
  · rw [insertBlockIndex, if_pos null]
    exact keyed
  · intro h pindex found
    rw [insertBlockIndex_lookup map null] at found
    split at found
    · next same =>
      rw [← Option.some.inj found, same]
      cases here : map.lookup hash with
      | none => rfl
      | some old => exact keyed hash old here
    · exact keyed h pindex found

theorem insertBlockIndex_fst (parent : pprev ≠ some 0) : (insertBlockIndex map (pprev.getD 0)).1 = pprev := by
  unfold insertBlockIndex
  cases pprev with
  | none => rfl
  | some prev =>
    have known : prev ≠ 0 := fun same => parent (congrArg some same)
    rw [Option.getD_some, if_neg known]
    split
    · rfl
    · rfl

theorem copyFields_ofIndex (pindexNew : CBlockIndex) (hash : pindexNew.phashBlock = pindex.phashBlock) :
    copyFields (CDiskBlockIndex.ofIndex pindex) pindex.pprev pindexNew = pindex := by
  obtain ⟨fields, phashBlock, pprev⟩ := pindexNew
  obtain rfl : phashBlock = pindex.phashBlock := hash
  rfl

/-- What is left of the map once a record is loaded: the entry stands under its hash, its parent has an entry, and no other changes. -/
def afterRecord : BlockMap :=
  (insertBlockIndex (insertBlockIndex map pindex.phashBlock).2 (pindex.pprev.getD 0)).2.insert pindex.phashBlock pindex

theorem loadRecord_written {pindex : CBlockIndex} (inMemory : InMemory xevan hash256 pindex)
    (written : Written pindex) {map : BlockMap} (keyed : Keyed map) :
    loadRecord xevan hash256 isStakeModifierV2 map ⟨((CDiskBlockIndex.ofIndex pindex).serialize isStakeModifierV2 CLIENT_VERSION).bytes⟩ =
      .ok (afterRecord map pindex, pindex) := by
  have read := unserialize_reads isStakeModifierV2 (d := CDiskBlockIndex.ofIndex pindex) inMemory.fits written.placed written.checkpoint
    written.supply []
  rw [List.append_nil] at read
  have hash : (CDiskBlockIndex.ofIndex pindex).getBlockHash xevan hash256 = pindex.phashBlock := inMemory.hash.symm
  have first : (insertBlockIndex map pindex.phashBlock).1 = some pindex.phashBlock :=
    @insertBlockIndex_fst map (some pindex.phashBlock) fun null => inMemory.known (Option.some.inj null)
  have pair : insertBlockIndex map pindex.phashBlock = (some pindex.phashBlock, (insertBlockIndex map pindex.phashBlock).2) := by
    rw [← first]
  have found : (insertBlockIndex map pindex.phashBlock).2.lookup pindex.phashBlock =
      some ((map.lookup pindex.phashBlock).getD { phashBlock := pindex.phashBlock }) := by
    rw [insertBlockIndex_lookup map inMemory.known, if_pos rfl]
  have oldHash := insertBlockIndex_keyed keyed pindex.phashBlock _ _ found
  have kept := insertBlockIndex_kept _ (pindex.pprev.getD 0) found
  have prev := insertBlockIndex_fst (insertBlockIndex map pindex.phashBlock).2 inMemory.parent
  unfold loadRecord
  simp only [read, hash]
  rw [pair]
  have hashPrev : (CDiskBlockIndex.ofIndex pindex).hashPrev = pindex.pprev.getD 0 := rfl
  simp only [hashPrev, kept, prev, copyFields_ofIndex pindex _ oldHash]
  rfl

/-- An entry that is written by the current version and read back, into whatever has been loaded so far, is the same entry: hash,
parent, height, status, transactions, file positions, supplies, flags, modifier and header. -/
theorem entry_reloaded (isStakeModifierV2 : Int → Bool) {pindex : CBlockIndex} (inMemory : InMemory xevan hash256 pindex)
    (written : Written pindex) {map : BlockMap} (keyed : Keyed map) :
    ∃ map', loadRecord xevan hash256 isStakeModifierV2 map
        ⟨((CDiskBlockIndex.ofIndex pindex).serialize isStakeModifierV2 CLIENT_VERSION).bytes⟩ = .ok (map', pindex) ∧
      map'.lookup pindex.phashBlock = some pindex := by
  refine ⟨afterRecord map pindex, loadRecord_written isStakeModifierV2 inMemory written keyed, ?_⟩
  rw [afterRecord, StdMap.lookup_insert_ite, if_pos rfl]

theorem genesis_reloaded : ∃ map', loadRecord (fun _ => 1) (fun _ => 1) (fun _ => true) ∅
      ⟨((CDiskBlockIndex.ofIndex { phashBlock := 1, nVersion := 7, nTx := 1, nStatus := 13, nDataPos := 8, nBits := 0x207fffff }).serialize
        (fun _ => true) CLIENT_VERSION).bytes⟩ =
      .ok (map', { phashBlock := 1, nVersion := 7, nTx := 1, nStatus := 13, nDataPos := 8, nBits := 0x207fffff }) ∧
    map'.lookup 1 = some { phashBlock := 1, nVersion := 7, nTx := 1, nStatus := 13, nDataPos := 8, nBits := 0x207fffff } := by
  have noSupply : ∀ denom supply, clearMapZcSupply.get denom = some supply → InInt 8 supply := by
    intro denom supply found
    have zero : supply = 0 := by
      cases denom with
      | ZQ_ERROR => exact nomatch (show none = some supply from found)
      | _ => exact (Option.some.inj found).symm
    rw [zero]
    exact ⟨by decide, by decide⟩
  apply @entry_reloaded _ _ (fun _ => true) { phashBlock := 1, nVersion := 7, nTx := 1, nStatus := 13, nDataPos := 8, nBits := 0x207fffff }
  · exact ⟨⟨by decide, by decide, by decide, by decide, by decide, by decide, by decide, ⟨by decide, by decide⟩, by decide,
      ⟨by decide, by decide⟩, by decide, by decide, by decide, noSupply⟩, rfl, by decide, nofun⟩
  · exact ⟨fun _ => rfl, fun _ => rfl, ⟨fun _ => rfl, fun absent => absurd absent (by decide), fun _ => rfl⟩⟩
  · exact nofun

theorem afterRecord_keyed {map : BlockMap} (keyed : Keyed map) (pindex : CBlockIndex) : Keyed (afterRecord map pindex) := by
  intro h found here
  rw [afterRecord, StdMap.lookup_insert_ite] at here
  split at here
  · next same => rw [← Option.some.inj here, same]
  · exact insertBlockIndex_keyed (insertBlockIndex_keyed keyed _) _ _ _ here

theorem afterRecord_kept {map : BlockMap} {pindex old : CBlockIndex} {h : uint256} (other : h ≠ pindex.phashBlock)
    (found : map.lookup h = some old) : (afterRecord map pindex).lookup h = some old := by
  rw [afterRecord, StdMap.lookup_insert_ite, if_neg other]
  exact insertBlockIndex_kept _ _ (insertBlockIndex_kept _ _ found)

theorem afterRecord_new {map : BlockMap} {pindex : CBlockIndex} {h : uint256} (isNew : (afterRecord map pindex).lookup h ≠ none) :
    map.lookup h ≠ none ∨ h = pindex.phashBlock ∨ pindex.pprev = some h := by
  by_cases own : h = pindex.phashBlock
  · exact Or.inr (Or.inl own)
  · rw [afterRecord, StdMap.lookup_insert_ite, if_neg own] at isNew
    have asked : ∀ (m : BlockMap) (hash : uint256), h ≠ hash → (insertBlockIndex m hash).2.lookup h = m.lookup h := by
      intro m hash other
      by_cases null : hash = 0
      · rw [insertBlockIndex, if_pos null]
      · rw [insertBlockIndex_lookup m null, if_neg other]
    cases parent : pindex.pprev with
    | none =>
      rw [parent, Option.getD_none, insertBlockIndex, if_pos rfl, asked map _ own] at isNew
      exact Or.inl isNew
    | some prev =>
      by_cases isParent : h = prev
      · exact Or.inr (Or.inr (congrArg some isParent.symm))
      · rw [parent, Option.getD_some, asked _ _ isParent, asked map _ own] at isNew
        exact Or.inl isNew

def blockKey (hash : uint256) : Slice := ⟨DB_BLOCK_INDEX :: uint256Bytes hash⟩

def record (pindex : CBlockIndex) : Slice × Slice :=
  (blockKey pindex.phashBlock, ⟨((CDiskBlockIndex.ofIndex pindex).serialize isStakeModifierV2 CLIENT_VERSION).bytes⟩)

variable {index : List CBlockIndex}

theorem loadRecords_eq (checkProofOfWork : uint256 → Nat → Bool) (height_last_PoW : Int)
    (inMemory : ∀ pindex ∈ index, InMemory xevan hash256 pindex)
    (written : ∀ pindex ∈ index, Written pindex)
    (worked : ∀ pindex ∈ index, pindex.nHeight ≤ height_last_PoW → checkProofOfWork pindex.phashBlock pindex.nBits = true)
    {map : BlockMap} (keyed : Keyed map) :
    loadRecords xevan hash256 isStakeModifierV2 checkProofOfWork height_last_PoW (index.map (record isStakeModifierV2)) map =
      .ok (index.foldl afterRecord map) := by
  induction index generalizing map with
  | nil => rfl
  | cons pindex index ih =>
    have here := loadRecord_written isStakeModifierV2 (inMemory _ List.mem_cons_self) (written _ List.mem_cons_self) keyed
    rw [List.map_cons, record, blockKey, loadRecords]
    dsimp only
    rw [if_pos rfl, here]
    dsimp only
    rw [if_neg, List.foldl_cons]
    · exact ih (fun p member => inMemory p (List.mem_cons_of_mem _ member)) (fun p member => written p (List.mem_cons_of_mem _ member))
        (fun p member => worked p (List.mem_cons_of_mem _ member)) (afterRecord_keyed keyed pindex)
    · intro failed
      rw [worked _ List.mem_cons_self failed.1] at failed
      exact Bool.noConfusion failed.2

theorem foldl_afterRecord_kept {map : BlockMap} (other : ∀ pindex ∈ index, h ≠ pindex.phashBlock)
    (found : map.lookup h = some old) : (index.foldl afterRecord map).lookup h = some old := by
  induction index generalizing map with
  | nil => exact found
  | cons first index ih =>
    rw [List.foldl_cons]
    exact ih (fun pindex member => other pindex (List.mem_cons_of_mem _ member)) (afterRecord_kept (other first List.mem_cons_self) found)

theorem foldl_afterRecord_loaded (distinct : (index.map (·.phashBlock)).Nodup) (map : BlockMap)
    {pindex : CBlockIndex} (member : pindex ∈ index) :
    (index.foldl afterRecord map).lookup pindex.phashBlock = some pindex := by
  induction index generalizing map with
  | nil => exact absurd member List.not_mem_nil
  | cons first index ih =>
    obtain ⟨others, distinct⟩ := List.nodup_cons.mp distinct
    rw [List.foldl_cons]
    rcases List.mem_cons.mp member with rfl | member
    · apply foldl_afterRecord_kept
      · intro later member same
        exact others (List.mem_map.mpr ⟨later, member, same.symm⟩)
      · rw [afterRecord, StdMap.lookup_insert_ite, if_pos rfl]
    · exact ih distinct _ member

theorem foldl_afterRecord_new {map : BlockMap} {h : uint256}
    (isNew : (index.foldl afterRecord map).lookup h ≠ none) :
    map.lookup h ≠ none ∨ ∃ pindex ∈ index, h = pindex.phashBlock ∨ pindex.pprev = some h := by
  induction index generalizing map with
  | nil => exact Or.inl isNew
  | cons first index ih =>
    rw [List.foldl_cons] at isNew
    rcases ih isNew with before | ⟨pindex, member, named⟩
    · rcases afterRecord_new before with old | named
      · exact Or.inl old
      · exact Or.inr ⟨first, List.mem_cons_self, named⟩
    · exact Or.inr ⟨pindex, List.mem_cons_of_mem _ member, named⟩

/-- The cursor stops behind the records of the type. -/
theorem loadRecords_typed (checkProofOfWork : uint256 → Nat → Bool) (height_last_PoW : Int)
    {records : List (Slice × Slice)} (named : ∀ r ∈ records, r.1.data ≠ []) (map : BlockMap) :
    loadRecords xevan hash256 isStakeModifierV2 checkProofOfWork height_last_PoW records map =
      loadRecords xevan hash256 isStakeModifierV2 checkProofOfWork height_last_PoW
        (records.takeWhile fun r => decide (r.1.HasType DB_BLOCK_INDEX)) map := by
  induction records generalizing map with
  | nil => rfl
  | cons r records ih =>
    obtain ⟨⟨bytes⟩, slValue⟩ := r
    cases bytes with
    | nil => exact absurd rfl (named _ List.mem_cons_self)
    | cons chType bytes =>
      have rest := ih fun r member => named r (List.mem_cons_of_mem _ member)
      by_cases isBlock : chType = DB_BLOCK_INDEX
      · rw [List.takeWhile_cons_of_pos (by simp [Slice.HasType, isBlock]), loadRecords, loadRecords]
        dsimp only
        rw [if_pos isBlock, if_pos isBlock]
        cases loadRecord xevan hash256 isStakeModifierV2 map slValue with
        | error e => rfl
        | ok loaded =>
          dsimp only
          rw [rest]
      · rw [List.takeWhile_cons_of_neg (by simp [Slice.HasType, isBlock]), loadRecords, loadRecords]
        dsimp only
        rw [if_neg isBlock]

/-- The records of type `'b'` in the database are those of the entries, each under the hash of its entry. -/
def Stores (db : OrderedStore Slice Slice) (index : List CBlockIndex) : Prop :=
  ∀ slKey slValue, slKey.HasType DB_BLOCK_INDEX →
    (db.get slKey = some slValue ↔ ∃ pindex ∈ index, record isStakeModifierV2 pindex = (slKey, slValue))

/-- What the cursor passes are the records of the entries, in the order of their hashes. -/
theorem visited_records {isStakeModifierV2 : Int → Bool} {db : OrderedStore Slice Slice}
    (distinct : (index.map (·.phashBlock)).Nodup) (stores : Stores isStakeModifierV2 db index) :
    ∃ visited : List CBlockIndex, ((db.seek (blockKey 0)).takeWhile fun r => decide (r.1.HasType DB_BLOCK_INDEX)) =
        visited.map (record isStakeModifierV2) ∧
      (visited.map (·.phashBlock)).Nodup ∧ ∀ pindex, pindex ∈ visited ↔ pindex ∈ index := by
  have passed : ∀ r, r ∈ ((db.seek (blockKey 0)).takeWhile fun r => decide (r.1.HasType DB_BLOCK_INDEX)) ↔
      ∃ pindex ∈ index, record isStakeModifierV2 pindex = r := by
    intro r
    unfold blockKey
    rw [Slice.mem_visited]
    constructor
    · intro found
      exact (stores r.1 r.2 found.2.2).mp (OrderedStore.mem_entries_iff.mp found.1)
    · intro found
      obtain ⟨pindex, member, rfl⟩ := found
      have least := Slice.zeros_le DB_BLOCK_INDEX (uint256Bytes pindex.phashBlock)
      rw [uint256Bytes, length_leBytes] at least
      exact ⟨OrderedStore.mem_entries_iff.mpr ((stores _ _ (Slice.hasType_cons _ _)).mpr ⟨pindex, member, rfl⟩), least,
        Slice.hasType_cons _ _⟩
  have sorted := (db.sorted_seek (blockKey 0)).sublist (List.takeWhile_sublist fun r => decide (r.1.HasType DB_BLOCK_INDEX))
  generalize ((db.seek (blockKey 0)).takeWhile fun r => decide (r.1.HasType DB_BLOCK_INDEX)) = records at passed sorted
  have written : records ∈ Set.range (List.map (fun pindex : { p // p ∈ index } => record isStakeModifierV2 pindex.1)) := by
    rw [Set.range_list_map]
    intro r member
    obtain ⟨pindex, inside, same⟩ := (passed r).mp member
    exact ⟨⟨pindex, inside⟩, same⟩
  obtain ⟨visited, rfl⟩ := written
  refine ⟨visited.map Subtype.val, by rw [List.map_map]; rfl, ?_, fun pindex => ⟨fun member => ?_, fun member => ?_⟩⟩
  · rw [List.map_map, List.Nodup, List.pairwise_map]
    refine (List.pairwise_map.mp sorted).imp fun less same => ?_
    exact absurd (congrArg blockKey same) less.ne
  · obtain ⟨p, _, rfl⟩ := List.mem_map.mp member
    exact p.2
  · obtain ⟨p, inside, same⟩ := List.mem_map.mp ((passed _).mpr ⟨pindex, member, rfl⟩)
    have hash : p.1.phashBlock = pindex.phashBlock := by
      have bytes := (List.cons.inj (Slice.mk.inj (congrArg Prod.fst same))).2
      rw [← uint256OfBytes_bytes p.1.phashBlock, bytes, uint256OfBytes_bytes]
    rw [← List.inj_on_of_nodup_map distinct p.2 member hash]
    exact List.mem_map_of_mem inside

/-- The block index is rebuilt from a database in which the records of its entries stand among others, in the order of their hashes, so that
a parent may be read before or after its children. -/
theorem index_reloaded (isStakeModifierV2 : Int → Bool) (checkProofOfWork : uint256 → Nat → Bool) (height_last_PoW : Int)
    {db : OrderedStore Slice Slice} {index : List CBlockIndex} (stores : Stores isStakeModifierV2 db index)
    (distinct : (index.map (·.phashBlock)).Nodup) (inMemory : ∀ pindex ∈ index, InMemory xevan hash256 pindex)
    (written : ∀ pindex ∈ index, Written pindex)
    (worked : ∀ pindex ∈ index, pindex.nHeight ≤ height_last_PoW → checkProofOfWork pindex.phashBlock pindex.nBits = true)
    (rooted : ∀ pindex ∈ index, ∀ prev ∈ pindex.pprev, ∃ parent ∈ index, parent.phashBlock = prev) :
    ∃ map, loadBlockIndexGuts xevan hash256 isStakeModifierV2 checkProofOfWork height_last_PoW db ∅ = .ok map ∧
      ∀ h pindex, map.lookup h = some pindex ↔ pindex ∈ index ∧ pindex.phashBlock = h := by
  obtain ⟨visited, records, distinct, same⟩ := visited_records distinct stores
  have named : ∀ r ∈ db.seek (blockKey 0), r.1.data ≠ [] := by
    intro r member empty
    have least : ¬r.1.data.map UInt8.toNat < (blockKey 0).data.map UInt8.toNat := not_lt.mpr (OrderedStore.mem_seek.mp member).2
    rw [empty] at least
    exact least (List.nil_lt_cons _ _)
  have read : loadBlockIndexGuts xevan hash256 isStakeModifierV2 checkProofOfWork height_last_PoW db ∅ = .ok (visited.foldl afterRecord ∅) := by
    unfold loadBlockIndexGuts
    rw [← blockKey, loadRecords_typed isStakeModifierV2 checkProofOfWork height_last_PoW named, records]
    apply loadRecords_eq isStakeModifierV2 checkProofOfWork height_last_PoW
    · exact fun pindex member => inMemory pindex ((same pindex).mp member)
    · exact fun pindex member => written pindex ((same pindex).mp member)
    · exact fun pindex member => worked pindex ((same pindex).mp member)
    · intro h pindex found
      cases found
  refine ⟨_, read, ?_⟩
  have loaded := @foldl_afterRecord_loaded visited distinct ∅
  intro h pindex
  rw [← same]
  constructor
  · intro found
    have listed : ∃ own ∈ visited, own.phashBlock = h := by
      rcases @foldl_afterRecord_new visited ∅ h (by rw [found]; exact Option.some_ne_none pindex) with old | ⟨own, member, isOwn | parent⟩
      · exact absurd rfl old
      · exact ⟨own, member, isOwn.symm⟩
      · obtain ⟨prev, inside, isPrev⟩ := rooted own ((same own).mp member) h parent
        exact ⟨prev, (same prev).mpr inside, isPrev⟩
    obtain ⟨own, member, rfl⟩ := listed
    obtain rfl : own = pindex := Option.some.inj ((loaded member).symm.trans found)
    exact ⟨member, rfl⟩
  · intro listed
    rw [← listed.2]
    exact loaded listed.1

end Reload

def nonceHash (bytes : List UInt8) : uint256 := BitVec.ofNat 256 (bytes.getD 76 0).toNat

def genesisIndex : CBlockIndex := { phashBlock := 2, nVersion := 7, nTx := 1, nStatus := 13, nDataPos := 8, nBits := 0x207fffff, nNonce := 2 }

def childIndex : CBlockIndex :=
  { phashBlock := 1, pprev := some 2, nHeight := 1, nVersion := 7, nTx := 3, nStatus := 13, nDataPos := 300, nBits := 0x207fffff, nNonce := 1 }

/-- The child comes before its parent, and records of other types before and behind them. -/
def childFirst : OrderedStore Slice Slice :=
  (((OrderedStore.put ∅ ⟨[0x46]⟩ ⟨[0x31]⟩).put ⟨[0x6c]⟩ ⟨[0, 0, 0, 0]⟩).put (record (fun _ => true) genesisIndex).1
    (record (fun _ => true) genesisIndex).2).put (record (fun _ => true) childIndex).1 (record (fun _ => true) childIndex).2

theorem childFirst_stores : Stores (fun _ => true) childFirst [genesisIndex, childIndex] := by
  intro slKey slValue isBlock
  have noFlag : slKey ≠ ⟨[0x46]⟩ := by
    rintro rfl
    exact absurd isBlock (by decide)
  have noFile : slKey ≠ ⟨[0x6c]⟩ := by
    rintro rfl
    exact absurd isBlock (by decide)
  have apart : (record (fun _ => true) genesisIndex).1 ≠ (record (fun _ => true) childIndex).1 := by decide
  unfold childFirst
  rw [OrderedStore.get_put, OrderedStore.get_put, OrderedStore.get_put, OrderedStore.get_put, if_neg noFile, if_neg noFlag,
    OrderedStore.get_empty]
  simp only [List.mem_cons, List.not_mem_nil, or_false, exists_eq_or_imp, exists_eq_left, Prod.ext_iff]
  split_ifs with child genesis
  · rw [child, Option.some.injEq]
    simp [apart]
  · rw [genesis, Option.some.injEq]
    simp [apart.symm]
  · simp [Ne.symm child, Ne.symm genesis]

theorem genesis_index_reloaded : ∃ map, loadBlockIndexGuts nonceHash nonceHash (fun _ => true) (fun _ _ => true) 345 childFirst ∅ = .ok map ∧
    ∀ h pindex, map.lookup h = some pindex ↔ pindex ∈ [genesisIndex, childIndex] ∧ pindex.phashBlock = h := by
  have noSupply : ∀ denom supply, clearMapZcSupply.get denom = some supply → InInt 8 supply := by
    intro denom supply found
    have zero : supply = 0 := by
      cases denom <;> cases found <;> rfl
    rw [zero]
    exact ⟨by decide, by decide⟩
  apply index_reloaded
  · exact childFirst_stores
  · decide
  · refine List.forall_mem_cons.mpr ⟨⟨?_, by decide, by decide, by decide⟩, List.forall_mem_singleton.mpr ⟨?_, by decide, by decide, by decide⟩⟩
    · exact ⟨by decide, by decide, by decide, by decide, by decide, by decide, by decide, ⟨by decide, by decide⟩, by decide,
        ⟨by decide, by decide⟩, by decide, by decide, by decide, noSupply⟩
    · exact ⟨by decide, by decide, by decide, by decide, by decide, by decide, by decide, ⟨by decide, by decide⟩, by decide,
        ⟨by decide, by decide⟩, by decide, by decide, by decide, noSupply⟩
  · refine List.forall_mem_cons.mpr ⟨⟨fun _ => rfl, fun _ => rfl, ?_⟩, List.forall_mem_singleton.mpr ⟨fun _ => rfl, fun _ => rfl, ?_⟩⟩
    · exact ⟨fun _ => rfl, fun absent => absurd absent (by decide), fun _ => rfl⟩
    · exact ⟨fun _ => rfl, fun absent => absurd absent (by decide), fun _ => rfl⟩
  · exact fun _ _ _ => rfl
  · refine List.forall_mem_cons.mpr ⟨fun prev found => ?_, List.forall_mem_singleton.mpr fun prev found => ?_⟩
    · cases found
    · exact ⟨genesisIndex, List.mem_cons_self, Option.some.inj found⟩

end BlockTreeDB

end SchillingCoin
