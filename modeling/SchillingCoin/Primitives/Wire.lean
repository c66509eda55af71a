import SchillingCoin.Primitives.Serialize
import SchillingCoin.Primitives.Block
import Mathlib.Data.List.Forall2

/-!
Transactions and blocks on the wire, after the serialization methods of `primitives/transaction.h` and `primitives/block.h`.
A block here has all the fields of its header. `Hash` and `XEVAN` are parameters.
-/

namespace SchillingCoin

namespace Wire

open Codec DataStream

variable (h : uint256) (bytes : List UInt8) (width : Nat) (tx : CTransaction)

def uint256Bytes : List UInt8 := leBytes 32 h.toNat

def uint256OfBytes : uint256 := BitVec.ofNat 256 (leValue bytes)

def intBytes (x : Int) : List UInt8 := leBytes width (x % 256 ^ width).toNat

def intOfBytes (bytes : List UInt8) : Int := (leValue bytes : Int).bmod (256 ^ width)

def readUInt256 : StreamReader uint256 := do
  let block ← read 32
  return uint256OfBytes block

def readInt : StreamReader Int := do
  let block ← read width
  return intOfBytes width block

def serializeOutPoint (o : COutPoint) : Writes := [uint256Bytes o.hash ++ leBytes 4 o.n]

def unserializeOutPoint : StreamReader COutPoint := do
  let block ← read 36
  return { hash := uint256OfBytes (block.take 32), n := leValue (block.drop 32) }

def serializeTxIn (txin : CTxIn) : Writes :=
  serializeOutPoint txin.prevout ++ serializeBytes txin.scriptSig ++ [leBytes 4 txin.nSequence]

def unserializeTxIn : StreamReader CTxIn := do
  let prevout ← unserializeOutPoint
  let scriptSig ← unserializeBytes
  let nSequence ← readUInt 4
  return { prevout, scriptSig, nSequence }

def serializeTxOut (txout : CTxOut) : Writes := intBytes 8 txout.nValue :: serializeBytes txout.scriptPubKey

def unserializeTxOut : StreamReader CTxOut := do
  let nValue ← readInt 8
  let scriptPubKey ← unserializeBytes
  return { nValue, scriptPubKey }

def serializeTransaction : Writes :=
  intBytes 4 tx.nVersion :: serializeVector serializeTxIn tx.vin ++ serializeVector serializeTxOut tx.vout ++ [leBytes 4 tx.nLockTime]

def serializeHash (hash256 : List UInt8 → uint256) (tx : CTransaction) : uint256 := hash256 (serializeTransaction tx).bytes

def updateHash (hash256 : List UInt8 → uint256) (tx : CTransaction) : CTransaction := { tx with hash := serializeHash hash256 tx }

/-- The sizes of the elements in memory on a 64-bit machine. -/
def sizeofTxIn : Nat := 96
def sizeofTxOut : Nat := 40
def sizeofTransaction : Nat := 96

def unserializeTransaction (hash256 : List UInt8 → uint256) : StreamReader CTransaction := do
  let nVersion ← readInt 4
  let vin ← unserializeVector sizeofTxIn unserializeTxIn
  let vout ← unserializeVector sizeofTxOut unserializeTxOut
  let nLockTime ← readUInt 4
  return updateHash hash256 { hash := 0, nVersion, vin, vout, nLockTime }

structure CBlockHeader where
  nVersion : Int := 6
  hashPrevBlock : uint256 := 0
  hashMerkleRoot : uint256 := 0
  nTime : Nat := 0
  nBits : Nat := 0
  nNonce : Nat := 0
  nAccumulatorCheckpoint : uint256 := 0
  deriving DecidableEq, Repr

structure CBlock extends CBlockHeader where
  vtx : List CTransaction := []
  vchBlockSig : List UInt8 := []
  deriving DecidableEq, Repr

namespace CBlockHeader

variable (header : CBlockHeader)

def toNonce : Writes :=
  [intBytes 4 header.nVersion, uint256Bytes header.hashPrevBlock, uint256Bytes header.hashMerkleRoot, leBytes 4 header.nTime,
    leBytes 4 header.nBits, leBytes 4 header.nNonce]

def getHash (xevan hash256 : List UInt8 → uint256) (header : CBlockHeader) : uint256 :=
  if header.nVersion < 4 then xevan header.toNonce.bytes
  else hash256 (header.toNonce.bytes ++ uint256Bytes header.nAccumulatorCheckpoint)

def serialize : Writes :=
  header.toNonce ++ if header.nVersion = 4 then [uint256Bytes header.nAccumulatorCheckpoint] else []

def unserializeCheckpoint (nVersion : Int) : StreamReader uint256 := if nVersion = 4 then readUInt256 else pure 0

def unserialize : StreamReader CBlockHeader := do
  let nVersion ← readInt 4
  let hashPrevBlock ← readUInt256
  let hashMerkleRoot ← readUInt256
  let nTime ← readUInt 4
  let nBits ← readUInt 4
  let nNonce ← readUInt 4
  let nAccumulatorCheckpoint ← unserializeCheckpoint nVersion
  return { nVersion, hashPrevBlock, hashMerkleRoot, nTime, nBits, nNonce, nAccumulatorCheckpoint }

end CBlockHeader

namespace CBlock

def isProofOfStake (block : CBlock) : Bool :=
  match block.vtx with
  | _ :: tx :: _ => tx.isCoinStake
  | _ => false

def serialize (block : CBlock) : Writes :=
  block.toCBlockHeader.serialize ++ serializeVector serializeTransaction block.vtx ++
    if block.isProofOfStake then serializeBytes block.vchBlockSig else []

def unserializeBlockSig (fProofOfStake : Bool) : StreamReader (List UInt8) := if fProofOfStake then unserializeBytes else pure []

def unserialize (hash256 : List UInt8 → uint256) : StreamReader CBlock := do
  let header ← CBlockHeader.unserialize
  let vtx ← unserializeVector sizeofTransaction (unserializeTransaction hash256)
  let block : CBlock := { toCBlockHeader := header, vtx }
  let vchBlockSig ← unserializeBlockSig block.isProofOfStake
  return { block with vchBlockSig }

def getSerializeSize (block : CBlock) : Nat := block.serialize.size

end CBlock

theorem uint256Bytes_ofBytes (size : block.length = 32) : uint256Bytes (uint256OfBytes block) = block := by
  have small := leValue_lt block
  rw [size] at small
  rw [uint256Bytes, uint256OfBytes, BitVec.toNat_ofNat, Nat.mod_eq_of_lt (by simpa using small), ← size, leBytes_leValue]

theorem uint256OfBytes_bytes : uint256OfBytes (uint256Bytes h) = h := by
  rw [uint256OfBytes, uint256Bytes, leValue_leBytes, Nat.mod_eq_of_lt (by simpa using h.isLt), BitVec.ofNat_toNat, BitVec.setWidth_eq]

theorem intBytes_ofBytes {width : Nat} (size : block.length = width) : intBytes width (intOfBytes width block) = block := by
  have small := leValue_lt block
  rw [size] at small
  have value : (intOfBytes width block % 256 ^ width).toNat = leValue block := by
    have same : intOfBytes width block % 256 ^ width = (leValue block : Int) % 256 ^ width := by
      rw [intOfBytes]
      exact_mod_cast Int.bmod_emod
    rw [same]
    exact_mod_cast Nat.mod_eq_of_lt small
  rw [intBytes, value, ← size, leBytes_leValue]

def InInt (x : Int) : Prop := -(256 ^ width / 2 : Int) ≤ x ∧ x < 256 ^ width / 2

theorem intOfBytes_bytes {width : Nat} (positive : 0 < width) (small : InInt width x) : intOfBytes width (intBytes width x) = x := by
  have modulus : (0 : Int) < 256 ^ width := Int.pow_pos (by decide)
  have even : (256 ^ width : Int) % 2 = 0 := by
    obtain ⟨k, rfl⟩ : ∃ k, width = k + 1 := ⟨width - 1, by omega⟩
    rw [pow_succ]
    omega
  have residue : (leValue (intBytes width x) : Int) = x % 256 ^ width := by
    have low := Int.emod_lt_of_pos x modulus
    have high := Int.emod_nonneg x modulus.ne'
    have cast : ((256 ^ width : Nat) : Int) = 256 ^ width := by push_cast; rfl
    rw [intBytes, leValue_leBytes, Nat.mod_eq_of_lt (by omega)]
    omega
  obtain ⟨low, high⟩ := small
  rw [intOfBytes, residue]
  have same : (x % 256 ^ width).bmod (256 ^ width) = x.bmod (256 ^ width) := by
    exact_mod_cast Int.emod_bmod x (256 ^ width)
  rw [same, Int.bmod_eq_of_le_mul_two]
  · push_cast
    omega
  · push_cast
    omega

theorem readUInt256_canonical : Canonical readUInt256 uint256Bytes := by
  intro bytes h rest done
  obtain ⟨block, mid, first, done⟩ := bind_ok done
  obtain ⟨rfl, rfl⟩ := pure_ok done
  obtain ⟨rfl, size⟩ := read_ok first
  rw [uint256Bytes_ofBytes size]

theorem readUInt256_reads : Reads readUInt256 h (uint256Bytes h) := by
  have block : Reads (do return uint256OfBytes (← read (uint256Bytes h).length)) (uint256OfBytes (uint256Bytes h)) (uint256Bytes h) :=
    (read_reads (uint256Bytes h)).bind_pure
  rwa [uint256OfBytes_bytes, uint256Bytes, length_leBytes] at block

theorem readInt_canonical : Canonical (readInt width) (intBytes width) := by
  intro bytes x rest done
  obtain ⟨block, mid, first, done⟩ := bind_ok done
  obtain ⟨rfl, rfl⟩ := pure_ok done
  obtain ⟨rfl, size⟩ := read_ok first
  rw [intBytes_ofBytes size]

theorem readInt_reads {width : Nat} (positive : 0 < width) (small : InInt width x) : Reads (readInt width) x (intBytes width x) := by
  have block : Reads (do return intOfBytes width (← read (intBytes width x).length)) (intOfBytes width (intBytes width x)) (intBytes width x) :=
    (read_reads (intBytes width x)).bind_pure
  rwa [intOfBytes_bytes positive small, intBytes, length_leBytes] at block

variable {hash256 : List UInt8 → uint256}

theorem unserializeOutPoint_canonical : Canonical unserializeOutPoint fun o => (serializeOutPoint o).bytes := by
  intro bytes o rest done
  obtain ⟨block, mid, first, finish⟩ := bind_ok done
  obtain ⟨rfl, rfl⟩ := pure_ok finish
  obtain ⟨rfl, size⟩ := read_ok first
  have hash : uint256Bytes (uint256OfBytes (block.take 32)) = block.take 32 :=
    uint256Bytes_ofBytes (by rw [List.length_take]; omega)
  have index : leBytes 4 (leValue (block.drop 32)) = block.drop 32 := by
    have length : (block.drop 32).length = 4 := by rw [List.length_drop]; omega
    have back := leBytes_leValue (block.drop 32)
    rwa [length] at back
  simp [serializeOutPoint, hash, index]

theorem unserializeTxIn_canonical : Canonical unserializeTxIn fun txin => (serializeTxIn txin).bytes := by
  intro bytes txin rest done
  obtain ⟨prevout, _, first, done⟩ := bind_ok done
  obtain ⟨scriptSig, _, second, done⟩ := bind_ok done
  obtain ⟨nSequence, _, third, done⟩ := bind_ok done
  obtain ⟨rfl, rfl⟩ := pure_ok done
  rw [unserializeOutPoint_canonical _ _ _ first, (unserializeBytes_ok second).1, (readUInt_ok third).1]
  simp [serializeTxIn]

theorem unserializeTxOut_canonical : Canonical unserializeTxOut fun txout => (serializeTxOut txout).bytes := by
  intro bytes txout rest done
  obtain ⟨nValue, _, first, done⟩ := bind_ok done
  obtain ⟨scriptPubKey, _, second, done⟩ := bind_ok done
  obtain ⟨rfl, rfl⟩ := pure_ok done
  rw [readInt_canonical 8 _ _ _ first, (unserializeBytes_ok second).1]
  simp [serializeTxOut]

theorem unserializeTransaction_canonical :
    Canonical (unserializeTransaction hash256) fun tx => (serializeTransaction tx).bytes := by
  intro bytes tx rest done
  obtain ⟨nVersion, _, first, done⟩ := bind_ok done
  obtain ⟨vin, _, second, done⟩ := bind_ok done
  obtain ⟨vout, _, third, done⟩ := bind_ok done
  obtain ⟨nLockTime, _, fourth, done⟩ := bind_ok done
  obtain ⟨rfl, rfl⟩ := pure_ok done
  rw [readInt_canonical 4 _ _ _ first, (unserializeVector_ok (by decide) unserializeTxIn_canonical second).1,
    (unserializeVector_ok (by decide) unserializeTxOut_canonical third).1, (readUInt_ok fourth).1]
  simp [serializeTransaction, updateHash]

theorem CBlockHeader.unserialize_canonical : Canonical CBlockHeader.unserialize fun header => header.serialize.bytes := by
  intro bytes header rest done
  obtain ⟨nVersion, _, first, done⟩ := bind_ok done
  obtain ⟨hashPrevBlock, _, second, done⟩ := bind_ok done
  obtain ⟨hashMerkleRoot, _, third, done⟩ := bind_ok done
  obtain ⟨nTime, _, fourth, done⟩ := bind_ok done
  obtain ⟨nBits, _, fifth, done⟩ := bind_ok done
  obtain ⟨nNonce, _, sixth, done⟩ := bind_ok done
  obtain ⟨nAccumulatorCheckpoint, _, last, done⟩ := bind_ok done
  obtain ⟨rfl, rfl⟩ := pure_ok done
  rw [readInt_canonical 4 _ _ _ first, readUInt256_canonical _ _ _ second, readUInt256_canonical _ _ _ third, (readUInt_ok fourth).1,
    (readUInt_ok fifth).1, (readUInt_ok sixth).1]
  unfold unserializeCheckpoint at last
  split at last
  · rename_i zerocoin
    rw [readUInt256_canonical _ _ _ last]
    simp [CBlockHeader.serialize, toNonce, zerocoin]
  · rename_i other
    obtain ⟨rfl, rfl⟩ := pure_ok last
    simp [CBlockHeader.serialize, toNonce, other]

theorem CBlock.unserialize_canonical : Canonical (CBlock.unserialize hash256) fun block => block.serialize.bytes := by
  intro bytes block rest done
  obtain ⟨header, _, first, done⟩ := bind_ok done
  obtain ⟨vtx, _, second, done⟩ := bind_ok done
  obtain ⟨vchBlockSig, _, third, done⟩ := bind_ok done
  obtain ⟨rfl, rfl⟩ := pure_ok done
  rw [CBlockHeader.unserialize_canonical _ _ _ first,
    (unserializeVector_ok (by decide) unserializeTransaction_canonical second).1]
  have stake : CBlock.isProofOfStake { toCBlockHeader := header, vtx := vtx, vchBlockSig := vchBlockSig } =
      CBlock.isProofOfStake { toCBlockHeader := header, vtx := vtx } := rfl
  unfold unserializeBlockSig at third
  split at third
  · rename_i signed
    rw [(unserializeBytes_ok third).1]
    simp [CBlock.serialize, stake, signed]
  · rename_i unsigned
    obtain ⟨rfl, rfl⟩ := pure_ok third
    simp [CBlock.serialize, unsigned]

/-- The values of the C++ types, and vectors of at most `MAX_SIZE` elements. -/
structure TxInFits (txin : CTxIn) : Prop where
  index : txin.prevout.n < 2 ^ 32
  script : txin.scriptSig.length ≤ MAX_SIZE
  sequence : txin.nSequence < 2 ^ 32

structure TxOutFits (txout : CTxOut) : Prop where
  value : InInt 8 txout.nValue
  script : txout.scriptPubKey.length ≤ MAX_SIZE

structure TxFits (tx : CTransaction) : Prop where
  version : InInt 4 tx.nVersion
  vinSize : tx.vin.length ≤ MAX_SIZE
  inputs : ∀ txin ∈ tx.vin, TxInFits txin
  voutSize : tx.vout.length ≤ MAX_SIZE
  outputs : ∀ txout ∈ tx.vout, TxOutFits txout
  lockTime : tx.nLockTime < 2 ^ 32

structure BlockFits (block : CBlock) : Prop where
  version : InInt 4 block.nVersion
  time : block.nTime < 2 ^ 32
  bits : block.nBits < 2 ^ 32
  nonce : block.nNonce < 2 ^ 32
  vtxSize : block.vtx.length ≤ MAX_SIZE
  transactions : ∀ tx ∈ block.vtx, TxFits tx
  signature : block.vchBlockSig.length ≤ MAX_SIZE

/-- What stays in memory is new in an object that was read: `nRounds`, and the hash of a transaction. -/
def readTxOut (txout : CTxOut) : CTxOut := { txout with nRounds := -10 }

def readTransaction (hash256 : List UInt8 → uint256) (tx : CTransaction) : CTransaction :=
  updateHash hash256 { tx with vout := tx.vout.map readTxOut }

theorem unserializeOutPoint_reads (small : o.n < 2 ^ 32) : Reads unserializeOutPoint o (serializeOutPoint o).bytes := by
  have length : (uint256Bytes o.hash).length = 32 := length_leBytes 32 _
  have size : (uint256Bytes o.hash ++ leBytes 4 o.n).length = 36 := by simp [length]
  have block := read_reads (uint256Bytes o.hash ++ leBytes 4 o.n)
  rw [size] at block
  have first : (uint256Bytes o.hash ++ leBytes 4 o.n).take 32 = uint256Bytes o.hash := by
    rw [← length, List.take_left]
  have second : (uint256Bytes o.hash ++ leBytes 4 o.n).drop 32 = leBytes 4 o.n := by
    rw [← length, List.drop_left]
  have index : leValue (leBytes 4 o.n) = o.n := by
    rw [leValue_leBytes]
    exact Nat.mod_eq_of_lt (by omega)
  have whole : Reads unserializeOutPoint ⟨uint256OfBytes ((uint256Bytes o.hash ++ leBytes 4 o.n).take 32),
      leValue ((uint256Bytes o.hash ++ leBytes 4 o.n).drop 32)⟩ (uint256Bytes o.hash ++ leBytes 4 o.n) := block.bind_pure
  rw [first, second, uint256OfBytes_bytes, index] at whole
  simpa [serializeOutPoint] using whole

theorem unserializeTxIn_reads (fits : TxInFits txin) : Reads unserializeTxIn txin (serializeTxIn txin).bytes := by
  have wire : (serializeTxIn txin).bytes =
      (serializeOutPoint txin.prevout).bytes ++ ((serializeBytes txin.scriptSig).bytes ++ leBytes 4 txin.nSequence) := by
    simp [serializeTxIn]
  rw [wire]
  have sequence : Reads (readUInt 4) txin.nSequence (leBytes 4 txin.nSequence) := readUInt_reads (by have := fits.sequence; omega)
  exact (unserializeOutPoint_reads fits.index).bind ((unserializeBytes_reads fits.script).bind sequence.bind_pure)

theorem unserializeTxOut_reads (fits : TxOutFits txout) :
    Reads unserializeTxOut (readTxOut txout) (serializeTxOut txout).bytes := by
  have value : Reads (readInt 8) txout.nValue (intBytes 8 txout.nValue) := readInt_reads (by decide) fits.value
  exact value.bind (unserializeBytes_reads fits.script).bind_pure

theorem bytes_readTxOuts (vout : List CTxOut) :
    (serializeVector serializeTxOut (vout.map readTxOut)).bytes = (serializeVector serializeTxOut vout).bytes := by
  simp [List.flatMap_map, serializeTxOut, readTxOut]

theorem bytes_readTransaction :
    (serializeTransaction (readTransaction hash256 tx)).bytes = (serializeTransaction tx).bytes := by
  have outputs := bytes_readTxOuts tx.vout
  simp only [serializeTransaction, readTransaction, updateHash, Writes.bytes_append, List.cons_append, Writes.bytes_cons, outputs]

theorem unserializeTransaction_reads {tx : CTransaction} (fits : TxFits tx) :
    Reads (unserializeTransaction hash256) (readTransaction hash256 tx) (serializeTransaction tx).bytes := by
  have wire : (serializeTransaction tx).bytes = intBytes 4 tx.nVersion ++ ((serializeVector serializeTxIn tx.vin).bytes ++
      ((serializeVector serializeTxOut (tx.vout.map readTxOut)).bytes ++ leBytes 4 tx.nLockTime)) := by
    rw [bytes_readTxOuts]
    simp [serializeTransaction]
  rw [wire]
  have version : Reads (readInt 4) tx.nVersion (intBytes 4 tx.nVersion) := readInt_reads (by decide) fits.version
  have inputs := unserializeVector_reads (show 0 < 5000000 / sizeofTxIn by decide) fits.vinSize
    fun txin member => unserializeTxIn_reads (fits.inputs txin member)
  have outputs : Reads (unserializeVector sizeofTxOut unserializeTxOut) (tx.vout.map readTxOut)
      (serializeVector serializeTxOut (tx.vout.map readTxOut)).bytes := by
    refine unserializeVector_reads (by decide) (by rw [List.length_map]; exact fits.voutSize) ?_
    intro txout member
    obtain ⟨original, there, rfl⟩ := List.mem_map.mp member
    exact unserializeTxOut_reads (fits.outputs original there)
  have lockTime : Reads (readUInt 4) tx.nLockTime (leBytes 4 tx.nLockTime) := readUInt_reads (by have := fits.lockTime; omega)
  exact version.bind (inputs.bind (outputs.bind lockTime.bind_pure))

theorem CBlockHeader.unserialize_reads {header : CBlockHeader} (version : InInt 4 header.nVersion) (time : header.nTime < 2 ^ 32)
    (bits : header.nBits < 2 ^ 32) (nonce : header.nNonce < 2 ^ 32) (noCheckpoint : header.nVersion ≠ 4 → header.nAccumulatorCheckpoint = 0) :
    Reads CBlockHeader.unserialize header header.serialize.bytes := by
  have number : ∀ {n : Nat}, n < 2 ^ 32 → Reads (readUInt 4) n (leBytes 4 n) := fun small => readUInt_reads (by omega)
  have checkpoint : Reads (unserializeCheckpoint header.nVersion) header.nAccumulatorCheckpoint
      (Writes.bytes (if header.nVersion = 4 then [uint256Bytes header.nAccumulatorCheckpoint] else [])) := by
    unfold unserializeCheckpoint
    split
    · simpa using readUInt256_reads header.nAccumulatorCheckpoint
    · rename_i other
      rw [noCheckpoint other]
      exact Reads.pure 0
  have wire : header.serialize.bytes = intBytes 4 header.nVersion ++ (uint256Bytes header.hashPrevBlock ++
      (uint256Bytes header.hashMerkleRoot ++ (leBytes 4 header.nTime ++ (leBytes 4 header.nBits ++ (leBytes 4 header.nNonce ++
        Writes.bytes (if header.nVersion = 4 then [uint256Bytes header.nAccumulatorCheckpoint] else [])))))) := by
    rw [CBlockHeader.serialize, Writes.bytes_append]
    simp [toNonce]
  rw [wire]
  exact (readInt_reads (by decide) version).bind ((readUInt256_reads _).bind ((readUInt256_reads _).bind
    ((number time).bind ((number bits).bind ((number nonce).bind checkpoint.bind_pure)))))

theorem isCoinStake_readTransaction : (readTransaction hash256 tx).isCoinStake = tx.isCoinStake := by
  obtain ⟨hash, nVersion, vin, vout, nLockTime⟩ := tx
  cases vout with
  | nil => rfl
  | cons o rest => cases rest <;> rfl

def readBlock (hash256 : List UInt8 → uint256) (block : CBlock) : CBlock :=
  { block with vtx := block.vtx.map (readTransaction hash256) }

theorem isProofOfStake_readBlock (block : CBlock) : (readBlock hash256 block).isProofOfStake = block.isProofOfStake := by
  obtain ⟨header, vtx, vchBlockSig⟩ := block
  match vtx with
  | [] => rfl
  | [_] => rfl
  | _ :: tx :: _ => exact isCoinStake_readTransaction tx

theorem CBlock.unserialize_reads {block : CBlock} (fits : BlockFits block) (unsigned : block.isProofOfStake = false → block.vchBlockSig = [])
    (noCheckpoint : block.nVersion ≠ 4 → block.nAccumulatorCheckpoint = 0) :
    Reads (CBlock.unserialize hash256) (readBlock hash256 block) block.serialize.bytes := by
  have header := CBlockHeader.unserialize_reads fits.version fits.time fits.bits fits.nonce noCheckpoint
  have transactions : Reads (unserializeVector sizeofTransaction (unserializeTransaction hash256)) (block.vtx.map (readTransaction hash256))
      (serializeVector serializeTransaction block.vtx).bytes := by
    have same : (serializeVector serializeTransaction (block.vtx.map (readTransaction hash256))).bytes =
        (serializeVector serializeTransaction block.vtx).bytes := by
      simp [List.flatMap_map, bytes_readTransaction]
    rw [← same]
    refine unserializeVector_reads (by decide) (by rw [List.length_map]; exact fits.vtxSize) ?_
    intro tx member
    obtain ⟨original, there, rfl⟩ := List.mem_map.mp member
    rw [bytes_readTransaction]
    exact unserializeTransaction_reads (fits.transactions original there)
  have signature : Reads (unserializeBlockSig block.isProofOfStake) block.vchBlockSig
      (Writes.bytes (if block.isProofOfStake then serializeBytes block.vchBlockSig else [])) := by
    unfold unserializeBlockSig
    split
    · exact unserializeBytes_reads fits.signature
    · rename_i notSigned
      rw [unsigned (by simpa using notSigned)]
      exact Reads.pure []
  have wire : block.serialize.bytes = block.toCBlockHeader.serialize.bytes ++ ((serializeVector serializeTransaction block.vtx).bytes ++
      Writes.bytes (if block.isProofOfStake then serializeBytes block.vchBlockSig else [])) := by
    rw [CBlock.serialize, Writes.bytes_append, Writes.bytes_append, List.append_assoc]
  rw [wire]
  have signature' : Reads (unserializeBlockSig (readBlock hash256 block).isProofOfStake) block.vchBlockSig
      (Writes.bytes (if block.isProofOfStake then serializeBytes block.vchBlockSig else [])) := by
    rw [isProofOfStake_readBlock]
    exact signature
  exact header.bind (transactions.bind signature'.bind_pure)

/-- The transaction carries the hash of its content, as one that was read or made of a `CMutableTransaction` does. -/
def HashCurrent (hash256 : List UInt8 → uint256) (tx : CTransaction) : Prop := tx.hash = serializeHash hash256 tx

theorem hash_readTransaction : (readTransaction hash256 tx).getHash = serializeHash hash256 tx := by
  have same : hash256 (serializeTransaction (readTransaction hash256 tx)).bytes = serializeHash hash256 tx := by
    rw [bytes_readTransaction]
    rfl
  exact same

/-- Objects that are read are written with the same bytes, so that no two byte strings are one object; a block is read back
from what it writes, with the hashes that its transactions should have. -/
theorem wire_format_canonical (xevan hash256 : List UInt8 → uint256) :
    (∀ bytes tx, unserializeTransaction hash256 bytes = .ok (tx, []) → (serializeTransaction tx).bytes = bytes) ∧
    (∀ bytes bytes' tx, unserializeTransaction hash256 bytes = .ok (tx, []) → unserializeTransaction hash256 bytes' = .ok (tx, []) →
      bytes = bytes') ∧
    (∀ bytes block, CBlock.unserialize hash256 bytes = .ok (block, []) → block.serialize.bytes = bytes) ∧
    (∀ bytes bytes' block, CBlock.unserialize hash256 bytes = .ok (block, []) → CBlock.unserialize hash256 bytes' = .ok (block, []) →
      bytes = bytes') ∧
    ∀ block : CBlock, BlockFits block → (block.isProofOfStake = false → block.vchBlockSig = []) →
      (block.nVersion ≠ 4 → block.nAccumulatorCheckpoint = 0) →
      ∃ block', CBlock.unserialize hash256 block.serialize.bytes = .ok (block', []) ∧
        block'.toCBlockHeader = block.toCBlockHeader ∧ block'.vchBlockSig = block.vchBlockSig ∧
        List.Forall₂ (fun tx' tx : CTransaction => tx'.nVersion = tx.nVersion ∧ tx'.vin = tx.vin ∧
          tx'.vout = tx.vout.map readTxOut ∧ tx'.nLockTime = tx.nLockTime) block'.vtx block.vtx ∧
        block'.getHash xevan hash256 = block.getHash xevan hash256 ∧
        (∀ tx ∈ block'.vtx, HashCurrent hash256 tx) ∧
        (block'.vtx.map CTransaction.getHash = block.vtx.map CTransaction.getHash ↔ ∀ tx ∈ block.vtx, HashCurrent hash256 tx) ∧
        block.getSerializeSize = block.serialize.bytes.length := by
  have whole : ∀ bytes tx, unserializeTransaction hash256 bytes = .ok (tx, []) → (serializeTransaction tx).bytes = bytes := by
    intro bytes tx done
    have same := unserializeTransaction_canonical _ _ _ done
    rw [List.append_nil] at same
    exact same.symm
  have wholeBlock : ∀ bytes block, CBlock.unserialize hash256 bytes = .ok (block, []) → block.serialize.bytes = bytes := by
    intro bytes block done
    have same := CBlock.unserialize_canonical _ _ _ done
    rw [List.append_nil] at same
    exact same.symm
  refine ⟨whole, fun bytes bytes' tx first second => (whole bytes tx first).symm.trans (whole bytes' tx second), wholeBlock,
    fun bytes bytes' block first second => (wholeBlock bytes block first).symm.trans (wholeBlock bytes' block second), ?_⟩
  intro block fits unsigned noCheckpoint
  have reads : Reads (CBlock.unserialize hash256) (readBlock hash256 block) block.serialize.bytes :=
    CBlock.unserialize_reads fits unsigned noCheckpoint
  have read := reads []
  rw [List.append_nil] at read
  refine ⟨readBlock hash256 block, read, rfl, rfl, ?_, rfl, ?_, ?_, Writes.size_eq_length _⟩
  · rw [readBlock, List.forall₂_map_left_iff]
    exact List.forall₂_same.mpr fun tx _ => ⟨rfl, rfl, rfl, rfl⟩
  · intro tx member
    obtain ⟨original, _, rfl⟩ := List.mem_map.mp member
    rfl
  · rw [readBlock, List.map_map, List.map_inj_left]
    refine forall₂_congr fun tx _ => ?_
    rw [Function.comp, hash_readTransaction]
    exact eq_comm

theorem hashCurrent_updateHash (hash256 : List UInt8 → uint256) (tx : CTransaction) : HashCurrent hash256 (updateHash hash256 tx) := rfl

def contentHash : uint256 := BitVec.ofNat 256 (leValue bytes)

/-- A block of proof of stake of the version that has a checkpoint. -/
def checkpointBlock : CBlock where
  nVersion := 4
  hashPrevBlock := 9
  hashMerkleRoot := 5
  nTime := 1540198678
  nBits := 0x1b00ffff
  nAccumulatorCheckpoint := 0xabc
  vtx :=
    [updateHash contentHash
      { hash := 0, vin := [{ prevout := .null, scriptSig := [0x01, 0x65] }], vout := [{ nValue := 0, scriptPubKey := [] }] },
    updateHash contentHash
      { hash := 0, vin := [{ prevout := ⟨7, 1⟩, scriptSig := [0x51] }]
        vout := [{ nValue := 0, scriptPubKey := [] }, { nValue := 250 * COIN, scriptPubKey := [0x51] }] }]
  vchBlockSig := [0x30, 0x44, 0x02, 0x20]

theorem checkpointBlock_fits : BlockFits checkpointBlock where
  version := ⟨by decide, by decide⟩
  time := by decide
  bits := by decide
  nonce := by decide
  vtxSize := by decide
  transactions := by
    refine List.forall_mem_cons.mpr ⟨⟨⟨by decide, by decide⟩, by decide, ?_, by decide, ?_, by decide⟩,
      List.forall_mem_singleton.mpr ⟨⟨by decide, by decide⟩, by decide, ?_, by decide, ?_, by decide⟩⟩
    · exact List.forall_mem_singleton.mpr ⟨by decide, by decide, by decide⟩
    · exact List.forall_mem_singleton.mpr ⟨⟨by decide, by decide⟩, by decide⟩
    · exact List.forall_mem_singleton.mpr ⟨by decide, by decide, by decide⟩
    · exact List.forall_mem_cons.mpr ⟨⟨⟨by decide, by decide⟩, by decide⟩, List.forall_mem_singleton.mpr ⟨⟨by decide, by decide⟩, by decide⟩⟩
  signature := by decide

theorem stake_block_read_back : ∃ block' : CBlock, CBlock.unserialize contentHash checkpointBlock.serialize.bytes = .ok (block', []) ∧
    block'.toCBlockHeader = checkpointBlock.toCBlockHeader ∧ block'.vchBlockSig = checkpointBlock.vchBlockSig ∧
      block'.vtx.map CTransaction.getHash = checkpointBlock.vtx.map CTransaction.getHash := by
  obtain ⟨_, _, _, _, roundTrip⟩ := wire_format_canonical (fun _ => 0) contentHash
  have isStake : checkpointBlock.isProofOfStake ≠ false := by decide
  have versionFour : ¬checkpointBlock.nVersion ≠ 4 := by decide
  obtain ⟨block', read, header, signature, _, _, _, hashes, _⟩ :=
    roundTrip checkpointBlock checkpointBlock_fits (fun work => absurd work isStake) fun other => absurd other versionFour
  refine ⟨block', read, header, signature, hashes.mpr ?_⟩
  exact List.forall_mem_cons.mpr ⟨hashCurrent_updateHash _ _, List.forall_mem_singleton.mpr (hashCurrent_updateHash _ _)⟩

def emptyTransactionHash : uint256 :=
  if bytes = [1, 0, 0, 0, 0, 0, 0, 0, 0, 0] then 0xd21633ba23f70118185227be58a63527675641ad37967e2aa461559f577aec43 else 0

def emptyTransaction : CTransaction :=
  { hash := 0xd21633ba23f70118185227be58a63527675641ad37967e2aa461559f577aec43, vin := [], vout := [] }

theorem singleton_block_fits (hash : uint256) : BlockFits { vtx := [{ emptyTransaction with hash := hash }] } := by
  have small : ∀ {n : Nat}, n ≤ 1 → n < 2 ^ 32 ∧ n ≤ MAX_SIZE := fun low => ⟨by omega, Nat.le_trans low (by decide)⟩
  have fits : TxFits { emptyTransaction with hash := hash } :=
    ⟨⟨(by decide : -(256 ^ 4 / 2 : Int) ≤ 1), (by decide : (1 : Int) < 256 ^ 4 / 2)⟩, (small (Nat.zero_le 1)).2,
      fun _ none => absurd none List.not_mem_nil, (small (Nat.zero_le 1)).2, fun _ none => absurd none List.not_mem_nil,
      (small (Nat.zero_le 1)).1⟩
  refine ⟨⟨(by decide : -(256 ^ 4 / 2 : Int) ≤ 6), (by decide : (6 : Int) < 256 ^ 4 / 2)⟩, (small (Nat.zero_le 1)).1,
    (small (Nat.zero_le 1)).1, (small (Nat.zero_le 1)).1, (small (Nat.le_refl 1)).2, ?_, (small (Nat.zero_le 1)).2⟩
  intro tx member
  obtain rfl := List.mem_singleton.mp member
  exact fits

/-- The hash of `CTransaction()` is zero until the transaction is read. -/
theorem default_transaction_hash_changes : BlockFits { vtx := [{ emptyTransaction with hash := 0 }] } ∧
    ∃ block' : CBlock, CBlock.unserialize emptyTransactionHash (CBlock.serialize { vtx := [{ emptyTransaction with hash := 0 }] }).bytes =
      .ok (block', []) ∧ block'.vtx.map CTransaction.getHash ≠ [0] := by
  refine ⟨singleton_block_fits 0, readBlock emptyTransactionHash { vtx := [{ emptyTransaction with hash := 0 }] }, ?_, by decide⟩
  rw [← List.append_nil (CBlock.serialize _).bytes]
  exact CBlock.unserialize_reads (singleton_block_fits 0) (fun _ => rfl) (fun _ => rfl) []

end Wire

def MAX_STANDARD_TX_SIZE : Nat := 100000

def CTransaction.getSerializeSize (tx : CTransaction) : Nat := (Wire.serializeTransaction tx).size

end SchillingCoin
