import Mathlib.Data.List.Sort
import SchillingCoin.Net.AddrManCheck
import SchillingCoin.Primitives.Wire

/-!
The address manager on disk, after `Clear`, `Serialize` and `Unserialize` in `addrman.h` with streams of the type `SER_DISK`.
-/

namespace SchillingCoin.Net

open Codec DataStream Wire

def portBytes (port : Nat) : List UInt8 := [UInt8.ofNat (port / 256), UInt8.ofNat port]

def portOfBytes (bytes : List UInt8) : Nat := leValue bytes.reverse

namespace CAddrInfo

/-- A new entry; its position in the random list is still to be set. -/
def init : CAddrInfo := { ip := 0, port := 0, nServices := 1, nTime := 100000000, source := ⟨0⟩, nRandomPos := 0 }

def serialize (nVersion : Int) (info : CAddrInfo) : Writes :=
  [intBytes 4 nVersion, leBytes 4 info.nTime, leBytes 8 info.nServices, leBytes 16 info.ip.toNat, portBytes info.port,
    leBytes 16 info.source.ip.toNat, intBytes 8 info.nLastSuccess, intBytes 4 info.nAttempts]

/-- What is in memory only stays as it is. -/
def unserialize (info : CAddrInfo) : StreamReader CAddrInfo := do
  let _ ← readInt 4
  let nTime ← readUInt 4
  let nServices ← readUInt 8
  let ip ← readUInt 16
  let portN ← read 2
  let source ← readUInt 16
  let nLastSuccess ← readInt 8
  let nAttempts ← readInt 4
  return { info with
    ip := BitVec.ofNat 128 ip, port := portOfBytes portN, nServices, nTime, source := ⟨BitVec.ofNat 128 source⟩, nLastSuccess, nAttempts }

end CAddrInfo

namespace CAddrMan

variable (s : CAddrMan)

/-- `mapInfo` and `mapAddr` are left as they are. -/
def clear (nKey : uint256) : CAddrMan :=
  { s with nKey, vRandom := [], vvNew := fun _ _ => none, vvTried := fun _ _ => none, nIdCount := 0, nTried := 0, nNew := 0, nLastGood := 1 }

def inOrder : List (Sigma fun _ : Nat => CAddrInfo) := s.mapInfo.entries.insertionSort fun e e' => e.1 ≤ e'.1

def mapUnkIds : Nat → List (Sigma fun _ : Nat => CAddrInfo) → StdMap Nat Nat → StdMap Nat Nat
  | _, [], ids => ids
  | nIds, e :: rest, ids => mapUnkIds (if e.2.nRefCount ≠ 0 then nIds + 1 else nIds) rest (ids.insert e.1 nIds)

/-- The entries of one kind; `none` is the assertion that there are no more than `count`. -/
def serializeEntries (nVersion count : Int) : Nat → List CAddrInfo → Option Writes
  | _, [] => some []
  | nIds, info :: rest =>
    if (nIds : Int) = count then none
    else (serializeEntries nVersion count (nIds + 1) rest).map (info.serialize nVersion ++ ·)

def newEntries : List CAddrInfo := (s.inOrder.filter fun e => e.2.nRefCount != 0).map Sigma.snd

def triedEntries : List CAddrInfo := (s.inOrder.filter fun e => e.2.fInTried).map Sigma.snd

def bucketIds (bucket : NewBucket) : List Nat := (List.finRange ADDRMAN_BUCKET_SIZE).filterMap (s.vvNew bucket)

def serializeBucket (ids : StdMap Nat Nat) (bucketIds : List Nat) : Writes :=
  intBytes 4 bucketIds.length :: bucketIds.map fun id => intBytes 4 ((ids.lookup id).getD 0)

def FILE_BUCKETS : Int := 1073742848

def serialize (nVersion : Int) (s : CAddrMan) : Option Writes := do
  let newInfos ← serializeEntries nVersion s.nNew 0 s.newEntries
  let triedInfos ← serializeEntries nVersion s.nTried 0 s.triedEntries
  return [[1], [32], uint256Bytes s.nKey, intBytes 4 s.nNew, intBytes 4 s.nTried, intBytes 4 FILE_BUCKETS] ++ newInfos ++ triedInfos ++
    (List.finRange ADDRMAN_NEW_BUCKET_COUNT).flatMap fun bucket => serializeBucket (mapUnkIds 0 s.inOrder ∅) (s.bucketIds bucket)

inductive LoadFailure where
  | stream (failure : StreamFailure)
  | incorrectKeysize
  | assertion
  /-- With a negative count of new entries the source goes on with negative ids. -/
  | negativeCount
  deriving DecidableEq, Repr

def fromStream {α : Type} (r : StreamReader α) : Reader LoadFailure α := fun bytes => (r bytes).mapError .stream

def failWith {α : Type} (failure : LoadFailure) : Reader LoadFailure α := fun _ => .error failure

structure FileHeader where
  nVersion : Nat
  nKey : uint256
  nNew : Int
  nTried : Int
  nUBuckets : Int
  deriving DecidableEq, Repr

def xorBuckets (nVersion : Nat) (nUBuckets : Int) : Int :=
  if nVersion ≠ 0 then (BitVec.ofInt 32 nUBuckets ^^^ 1073741824#32).toInt else nUBuckets

def readKey (nKeySize : Nat) : Reader LoadFailure uint256 := if nKeySize ≠ 32 then failWith .incorrectKeysize else fromStream readUInt256

def readHeader : Reader LoadFailure FileHeader := do
  let nVersion ← fromStream (readUInt 1)
  let nKeySize ← fromStream (readUInt 1)
  let nKey ← readKey nKeySize
  let nNew ← fromStream (readInt 4)
  let nTried ← fromStream (readInt 4)
  let nUBuckets ← fromStream (readInt 4)
  return { nVersion, nKey, nNew, nTried, nUBuckets := xorBuckets nVersion nUBuckets }

/-- The positions of the file are used. -/
def FileHeader.usable (header : FileHeader) : Bool :=
  decide (header.nVersion = 1) && decide (header.nUBuckets = (ADDRMAN_NEW_BUCKET_COUNT : Int))

variable (k : AddrBuckets)

structure Loaded where
  man : CAddrMan
  nLost : Nat := 0
  nLostUnk : Nat := 0

def enterNew (n : Nat) (info : CAddrInfo) : CAddrMan :=
  { s with mapInfo := s.mapInfo.insert n info, mapAddr := s.mapAddr.insert info.toCNetAddr n, vRandom := s.vRandom ++ [n] }

def referBySource (n : Nat) (info : CAddrInfo) : CAddrMan :=
  let nUBucket := k.getNewBucket s.nKey info.toCNetAddr info.source
  let nUBucketPos := s.newPos k info nUBucket
  if s.vvNew nUBucket nUBucketPos = none then
    { s.setInfo n { info with nRefCount := info.nRefCount + 1 } with vvNew := Buckets.set s.vvNew nUBucket nUBucketPos (some n) }
  else s

def loadNewEntries (usable : Bool) : List Nat → CAddrMan → Reader LoadFailure CAddrMan
  | [], s => pure s
  | n :: rest, s => do
    let read ← fromStream ((s.mapInfo.lookup n).getD .init).unserialize
    let info := { read with nRandomPos := s.vRandom.length }
    let entered := s.enterNew n info
    loadNewEntries usable rest (if usable then entered else entered.referBySource k n info)

/-- `none` where the position is taken. -/
def enterTriedEntry (info : CAddrInfo) : Option CAddrMan :=
  let nKBucket := s.triedBucket k info
  let nKBucketPos := s.triedPos k info
  if s.vvTried nKBucket nKBucketPos = none then
    some { s with
      mapInfo := s.mapInfo.insert s.nIdCount { info with nRandomPos := s.vRandom.length, fInTried := true }
      mapAddr := s.mapAddr.insert info.toCNetAddr s.nIdCount
      vRandom := s.vRandom ++ [s.nIdCount]
      vvTried := Buckets.set s.vvTried nKBucket nKBucketPos (some s.nIdCount)
      nIdCount := s.nIdCount + 1 }
  else none

def Loaded.addTried (l : Loaded) (info : CAddrInfo) : Loaded :=
  match l.man.enterTriedEntry k info with
  | some man => { l with man }
  | none => { l with nLost := l.nLost + 1 }

def loadTriedEntries : Nat → Loaded → Reader LoadFailure Loaded
  | 0, l => pure l
  | left + 1, l => do
    let info ← fromStream CAddrInfo.init.unserialize
    loadTriedEntries left (l.addTried k info)

def placeIndex (usable : Bool) (bucket : Nat) (s : CAddrMan) (nIndex : Int) : CAddrMan :=
  if nIndex < 0 ∨ nIndex ≥ s.nNew then s
  else match s.mapInfo.lookup nIndex.toNat with
    | none => s
    | some info =>
      if inside : bucket < ADDRMAN_NEW_BUCKET_COUNT then
        let nUBucketPos := s.newPos k info ⟨bucket, inside⟩
        if usable = true ∧ s.vvNew ⟨bucket, inside⟩ nUBucketPos = none ∧ info.nRefCount < ADDRMAN_NEW_BUCKETS_PER_ADDRESS then
          { s.setInfo nIndex.toNat { info with nRefCount := info.nRefCount + 1 } with
            vvNew := Buckets.set s.vvNew ⟨bucket, inside⟩ nUBucketPos (some nIndex.toNat) }
        else s
      else s

def loadIndices (usable : Bool) (bucket : Nat) : Nat → CAddrMan → Reader LoadFailure CAddrMan
  | 0, s => pure s
  | left + 1, s => do
    let nIndex ← fromStream (readInt 4)
    loadIndices usable bucket left (s.placeIndex k usable bucket nIndex)

def loadBuckets (usable : Bool) : List Nat → CAddrMan → Reader LoadFailure CAddrMan
  | [], s => pure s
  | bucket :: rest, s => do
    let nSize ← fromStream (readInt 4)
    let s ← loadIndices k usable bucket nSize.toNat s
    loadBuckets usable rest s

def unreferenced : List Nat := (s.inOrder.filter fun e => !e.2.fInTried && e.2.nRefCount == 0).map Sigma.fst

def deleteAll : List Nat → CAddrMan → Option CAddrMan
  | [], s => some s
  | nId :: rest, s => (s.delete nId).bind (deleteAll rest)

def prune (nLost : Nat) (s : CAddrMan) : Reader LoadFailure Loaded :=
  match deleteAll s.unreferenced s with
  | none => failWith .assertion
  | some man => pure { man, nLost, nLostUnk := s.unreferenced.length }

def loadRest (header : FileHeader) (s : CAddrMan) : Reader LoadFailure Loaded := do
  let l ← loadTriedEntries k header.nTried.toNat { man := { s with nIdCount := header.nNew.toNat } }
  let s ← loadBuckets k header.usable (List.range header.nUBuckets.toNat) { l.man with nTried := header.nTried - l.nLost }
  prune l.nLost s

def loadEntries (header : FileHeader) (s : CAddrMan) : Reader LoadFailure Loaded := do
  let s ← loadNewEntries k header.usable (List.range header.nNew.toNat) { s with nKey := header.nKey, nNew := header.nNew, nTried := header.nTried }
  if header.nNew < 0 then failWith .negativeCount else loadRest k header s

/-- `Unserialize` into a manager. The key that `Clear` draws is replaced by that of the file. -/
def unserialize (randHash : uint256) (s : CAddrMan) : Reader LoadFailure Loaded := do
  let header ← readHeader
  loadEntries k header (s.clear randHash)

theorem fromStream_reads (reads : Reads r x wire) : Reads (fromStream r) x wire := by
  intro rest
  show (r (wire ++ rest)).mapError LoadFailure.stream = _
  rw [reads rest]
  rfl

theorem intBytes_length (width : Nat) (x : Int) : (intBytes width x).length = width := length_leBytes _ _

end CAddrMan

namespace CAddrInfo

structure Typed (info : CAddrInfo) : Prop where
  port : info.port < 2 ^ 16
  nServices : info.nServices < 2 ^ 64
  nTime : info.nTime < 2 ^ 32
  nLastSuccess : InInt 8 info.nLastSuccess
  nAttempts : InInt 4 info.nAttempts

theorem portOfBytes_bytes (small : port < 2 ^ 16) : portOfBytes (portBytes port) = port := by
  simp only [portOfBytes, portBytes, List.reverse_cons, List.reverse_nil, List.nil_append, List.cons_append, leValue, UInt8.toNat_ofNat']
  omega

theorem readIp_reads (ip : BitVec 128) : Reads (readUInt 16) ip.toNat (leBytes 16 ip.toNat) := readUInt_reads (by
  have small := ip.isLt
  exact Nat.lt_of_lt_of_eq small (by decide))

def readInto (base info : CAddrInfo) : CAddrInfo :=
  { base with
    ip := info.ip, port := info.port, nServices := info.nServices, nTime := info.nTime, source := info.source
    nLastSuccess := info.nLastSuccess, nAttempts := info.nAttempts }

theorem readVersion_reads (nVersion : Int) : ∃ version, Reads (readInt 4) version (intBytes 4 nVersion) := by
  have block : Reads (do return intOfBytes 4 (← read (intBytes 4 nVersion).length)) (intOfBytes 4 (intBytes 4 nVersion)) (intBytes 4 nVersion) :=
    (read_reads (intBytes 4 nVersion)).bind_pure
  rw [CAddrMan.intBytes_length] at block
  exact ⟨_, block⟩

theorem unserialize_reads (typed : info.Typed) (nVersion : Int) (base : CAddrInfo) :
    Reads base.unserialize (base.readInto info) (info.serialize nVersion).bytes := by
  obtain ⟨version, readsVersion⟩ := readVersion_reads nVersion
  have port : Reads (read 2) (portBytes info.port) (portBytes info.port) := read_reads (portBytes info.port)
  have value : base.readInto info = { base with
      ip := BitVec.ofNat 128 info.ip.toNat, port := portOfBytes (portBytes info.port), nServices := info.nServices, nTime := info.nTime,
      source := ⟨BitVec.ofNat 128 info.source.ip.toNat⟩, nLastSuccess := info.nLastSuccess, nAttempts := info.nAttempts } := by
    rw [portOfBytes_bytes typed.port, BitVec.ofNat_toNat, BitVec.ofNat_toNat]
    rfl
  rw [value]
  exact readsVersion.bind <| (readUInt_reads typed.nTime).bind <| (readUInt_reads typed.nServices).bind <| (readIp_reads info.ip).bind <|
    port.bind <| (readIp_reads info.source.ip).bind <| (readInt_reads (by decide) typed.nLastSuccess).bind <|
    (readInt_reads (by decide) typed.nAttempts).bind_pure

end CAddrInfo

namespace CAddrMan

variable (s : CAddrMan)

/-- What `Serialize` writes before the entries. -/
def headerBytes : List UInt8 :=
  [1] ++ ([32] ++ (uint256Bytes s.nKey ++ (intBytes 4 s.nNew ++ (intBytes 4 s.nTried ++ intBytes 4 FILE_BUCKETS))))

def header : FileHeader := ⟨1, s.nKey, s.nNew, s.nTried, ADDRMAN_NEW_BUCKET_COUNT⟩

theorem header_usable : s.header.usable = true := by
  rw [FileHeader.usable, header, decide_eq_true rfl, decide_eq_true rfl]
  rfl

theorem readHeader_reads {s : CAddrMan} (new : InInt 4 s.nNew) (tried : InInt 4 s.nTried) : Reads readHeader s.header s.headerBytes := by
  have byte : ∀ {n : Nat}, n < 256 → Reads (fromStream (readUInt 1)) n (leBytes 1 n) := fun small => fromStream_reads (readUInt_reads small)
  have key : Reads (readKey 32) s.nKey (uint256Bytes s.nKey) := by
    rw [readKey, if_neg (by decide)]
    exact fromStream_reads (readUInt256_reads s.nKey)
  have buckets : Reads (fromStream (readInt 4)) FILE_BUCKETS (intBytes 4 FILE_BUCKETS) :=
    fromStream_reads (readInt_reads (by decide) (by unfold InInt FILE_BUCKETS; omega))
  have value : s.header = ⟨1, s.nKey, s.nNew, s.nTried, xorBuckets 1 FILE_BUCKETS⟩ := by
    have count : xorBuckets 1 FILE_BUCKETS = (ADDRMAN_NEW_BUCKET_COUNT : Int) := by decide
    rw [count]
    rfl
  rw [value]
  exact (byte (by decide)).bind <| (byte (by decide)).bind <| key.bind <| (fromStream_reads (readInt_reads (by decide) new)).bind <|
    (fromStream_reads (readInt_reads (by decide) tried)).bind buckets.bind_pure

theorem range_buckets : List.range ADDRMAN_NEW_BUCKET_COUNT = (List.finRange ADDRMAN_NEW_BUCKET_COUNT).map Fin.val := by
  apply List.ext_getElem
  · rw [List.length_range, List.length_map, List.length_finRange]
  · intro i here there
    rw [List.getElem_range, List.getElem_map, List.getElem_finRange]
    rfl

end CAddrMan

end SchillingCoin.Net
