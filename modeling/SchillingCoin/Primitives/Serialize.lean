import SchillingCoin.Lib.Codec
import SchillingCoin.Primitives.Transaction

/-!
Streams and the serialization of numbers and vectors, after `serialize.h` and `streams.h`. Integers are in the order of a
little-endian machine.
-/

namespace SchillingCoin

open Codec

def MAX_SIZE : Nat := 0x02000000

/-- What `std::ios_base::failure` is thrown for. -/
inductive StreamFailure where
  | endOfData
  | nonCanonicalCompactSize
  | sizeTooLarge
  deriving DecidableEq, Repr

abbrev StreamReader := Reader StreamFailure

/-- What an object writes to a stream: a block of bytes for each call of `write`. -/
abbrev Writes := List (List UInt8)

namespace Writes

def bytes (writes : Writes) : List UInt8 := writes.flatten

/-- `CSizeComputer` only counts what is written. -/
def size (writes : Writes) : Nat := writes.foldl (fun nSize block => nSize + block.length) 0

@[simp] theorem bytes_nil : bytes [] = [] := rfl

@[simp] theorem bytes_cons (block : List UInt8) (writes : Writes) : bytes (block :: writes) = block ++ bytes writes := rfl

@[simp] theorem bytes_append (writes writes' : Writes) : bytes (writes ++ writes') = bytes writes ++ bytes writes' :=
  List.flatten_append

theorem size_eq_length (writes : Writes) : writes.size = writes.bytes.length := by
  have counted : ∀ start, writes.foldl (fun nSize block => nSize + block.length) start = start + writes.bytes.length := by
    induction writes with
    | nil => exact fun _ => rfl
    | cons block writes ih =>
      intro start
      rw [List.foldl_cons, ih, bytes_cons, List.length_append]
      omega
  have total := counted 0
  rwa [Nat.zero_add] at total

theorem bytes_flatMap (serialize : α → Writes) (v : List α) :
    bytes (v.flatMap serialize) = v.flatMap fun x => (serialize x).bytes := by
  induction v with
  | nil => rfl
  | cons x v ih => rw [List.flatMap_cons, bytes_append, ih, List.flatMap_cons]

end Writes

namespace DataStream

def read (nSize : Nat) : StreamReader (List UInt8) := fun bytes =>
  if nSize ≤ bytes.length then .ok (bytes.take nSize, bytes.drop nSize) else .error .endOfData

def readUInt (width : Nat) : StreamReader Nat := do
  let bytes ← read width
  return leValue bytes

def fail {α : Type} (e : StreamFailure) : StreamReader α := fun _ => .error e

def readAtLeast (width least : Nat) : StreamReader Nat := do
  let xSize ← readUInt width
  if xSize < least then fail .nonCanonicalCompactSize else return xSize

def readSizeAfter (chSize : Nat) : StreamReader Nat :=
  if chSize < 253 then pure chSize
  else if chSize = 253 then readAtLeast 2 253
  else if chSize = 254 then readAtLeast 4 0x10000
  else readAtLeast 8 0x100000000

def readCompactSize : StreamReader Nat := do
  let chSize ← readUInt 1
  let nSizeRet ← readSizeAfter chSize
  if nSizeRet > MAX_SIZE then fail .sizeTooLarge else return nSizeRet

def writeCompactSize (nSize : Nat) : Writes :=
  if nSize < 253 then [leBytes 1 nSize]
  else if nSize ≤ 0xffff then [leBytes 1 253, leBytes 2 nSize]
  else if nSize ≤ 0xffffffff then [leBytes 1 254, leBytes 4 nSize]
  else [leBytes 1 255, leBytes 8 nSize]

def getSizeOfCompactSize (nSize : Nat) : Nat :=
  if nSize < 253 then 1 else if nSize ≤ 0xffff then 1 + 2 else if nSize ≤ 0xffffffff then 1 + 4 else 1 + 8

def serializeBytes (v : List UInt8) : Writes := writeCompactSize v.length ++ if v.isEmpty then [] else [v]

def unserializeBytes : StreamReader (List UInt8) := do
  let nSize ← readCompactSize
  chunked read (1 + 4999999 / 1) nSize nSize 0

def serializeVector {α : Type} (serialize : α → Writes) (v : List α) : Writes := writeCompactSize v.length ++ v.flatMap serialize

def unserializeVector {α : Type} (sizeofT : Nat) (unserialize : StreamReader α) : StreamReader (List α) := do
  let nSize ← readCompactSize
  chunked (many unserialize) (5000000 / sizeofT) nSize nSize 0

variable {bytes rest : List UInt8} {width n : Nat}

theorem read_ok (done : read nSize bytes = .ok (block, rest)) : bytes = block ++ rest ∧ block.length = nSize := by
  unfold read at done
  split at done
  · rename_i enough
    obtain ⟨rfl, rfl⟩ := Prod.mk.inj (Except.ok.inj done)
    exact ⟨(List.take_append_drop nSize bytes).symm, by rw [List.length_take]; omega⟩
  · exact nomatch done

theorem read_reads (block : List UInt8) : Reads (read block.length) block block := by
  intro rest
  rw [read, if_pos (by rw [List.length_append]; omega), List.take_left, List.drop_left]

theorem read_additive : Additive read where
  zero := by
    funext bytes
    rw [read, if_pos (Nat.zero_le _)]
    rfl
  add := by
    intro m n
    funext bytes
    show read (m + n) bytes = (read m bytes >>= fun result => _)
    unfold read
    by_cases first : m ≤ bytes.length
    · rw [if_pos first]
      show _ = ((if n ≤ (bytes.drop m).length then _ else _) >>= fun result => _)
      by_cases second : n ≤ (bytes.drop m).length
      · rw [if_pos second, if_pos (by rw [List.length_drop] at second; omega)]
        show _ = Except.ok (bytes.take m ++ (bytes.drop m).take n, (bytes.drop m).drop n)
        rw [List.drop_drop, List.take_add]
      · rw [if_neg second, if_neg (by rw [List.length_drop] at second; omega)]
        rfl
    · rw [if_neg first, if_neg (by omega)]
      rfl

theorem readUInt_ok (done : readUInt width bytes = .ok (n, rest)) :
    bytes = leBytes width n ++ rest ∧ n < 256 ^ width := by
  obtain ⟨block, mid, first, done⟩ := bind_ok done
  obtain ⟨rfl, rfl⟩ := pure_ok done
  obtain ⟨rfl, rfl⟩ := read_ok first
  exact ⟨by rw [leBytes_leValue], leValue_lt block⟩

theorem readUInt_reads (small : n < 256 ^ width) : Reads (readUInt width) n (leBytes width n) := by
  have block : Reads (readUInt (leBytes width n).length) (leValue (leBytes width n)) (leBytes width n) :=
    (read_reads (leBytes width n)).bind_pure
  rwa [length_leBytes, leValue_leBytes, Nat.mod_eq_of_lt small] at block

theorem readAtLeast_ok (done : readAtLeast width least bytes = .ok (n, rest)) :
    bytes = leBytes width n ++ rest ∧ n < 256 ^ width ∧ least ≤ n := by
  obtain ⟨xSize, mid, first, done⟩ := bind_ok done
  split at done
  · exact nomatch done
  · obtain ⟨rfl, rfl⟩ := pure_ok done
    exact ⟨(readUInt_ok first).1, (readUInt_ok first).2, by omega⟩

theorem readAtLeast_reads (small : n < 256 ^ width) (large : least ≤ n) :
    Reads (readAtLeast width least) n (leBytes width n) := by
  have finished : Reads (if n < least then fail .nonCanonicalCompactSize else pure n) n [] := by
    rw [if_neg (by omega)]
    exact Reads.pure n
  unfold readAtLeast
  rw [← List.append_nil (leBytes width n)]
  exact (readUInt_reads small).bind finished

theorem readCompactSize_ok (done : readCompactSize bytes = .ok (n, rest)) :
    bytes = (writeCompactSize n).bytes ++ rest ∧ n ≤ MAX_SIZE := by
  obtain ⟨chSize, mid, first, done⟩ := bind_ok done
  obtain ⟨isFirst, byte⟩ := readUInt_ok first
  obtain ⟨nSizeRet, mid', second, done⟩ := bind_ok done
  split at done
  · exact nomatch done
  · rename_i small
    obtain ⟨rfl, rfl⟩ := pure_ok done
    refine ⟨?_, by omega⟩
    rw [isFirst]
    unfold writeCompactSize
    unfold readSizeAfter at second
    split at second
    · rename_i single
      obtain ⟨rfl, rfl⟩ := pure_ok second
      rw [if_pos single]
      simp
    · split at second
      · rename_i two
        obtain ⟨rfl, bound, least⟩ := readAtLeast_ok second
        rw [if_neg (by omega), if_pos (by omega), two]
        simp
      · split at second
        · rename_i four
          obtain ⟨rfl, bound, least⟩ := readAtLeast_ok second
          rw [if_neg (by omega), if_neg (by omega), if_pos (by omega), four]
          simp
        · obtain ⟨rfl, bound, least⟩ := readAtLeast_ok second
          have eight : chSize = 255 := by omega
          rw [if_neg (by omega), if_neg (by omega), if_neg (by omega), eight]
          simp

theorem readCompactSize_reads (small : n ≤ MAX_SIZE) :
    Reads readCompactSize n (writeCompactSize n).bytes := by
  have limit : MAX_SIZE = 33554432 := rfl
  have finished : Reads (if n > MAX_SIZE then fail .sizeTooLarge else pure n) n [] := by
    rw [if_neg (by omega)]
    exact Reads.pure n
  -- The first byte decides how the rest is read.
  have after : ∀ {chSize : Nat} {more : List UInt8}, chSize < 256 → Reads (readSizeAfter chSize) n more →
      Reads readCompactSize n (leBytes 1 chSize ++ more) := by
    intro chSize more byte reads
    unfold readCompactSize
    rw [← List.append_nil more]
    exact (readUInt_reads byte).bind (reads.bind finished)
  unfold writeCompactSize
  split
  · rename_i single
    refine after (by omega) ?_
    rw [readSizeAfter, if_pos single]
    exact Reads.pure n
  · split
    · rw [Writes.bytes_cons, Writes.bytes_cons, Writes.bytes_nil, List.append_nil]
      exact after (by omega) (readAtLeast_reads (by omega) (by omega))
    · rw [if_pos (by omega), Writes.bytes_cons, Writes.bytes_cons, Writes.bytes_nil, List.append_nil]
      exact after (by omega) (readAtLeast_reads (by omega) (by omega))

theorem getSizeOfCompactSize_eq (nSize : Nat) : getSizeOfCompactSize nSize = (writeCompactSize nSize).bytes.length := by
  unfold getSizeOfCompactSize writeCompactSize
  split_ifs <;> simp

@[simp] theorem bytes_serializeBytes (v : List UInt8) : (serializeBytes v).bytes = (writeCompactSize v.length).bytes ++ v := by
  cases v <;> simp [serializeBytes]

@[simp] theorem bytes_serializeVector (serialize : α → Writes) (v : List α) :
    (serializeVector serialize v).bytes = (writeCompactSize v.length).bytes ++ v.flatMap fun x => (serialize x).bytes := by
  rw [serializeVector, Writes.bytes_append, Writes.bytes_flatMap]

theorem unserializeBytes_ok (done : unserializeBytes bytes = .ok (v, rest)) :
    bytes = (serializeBytes v).bytes ++ rest ∧ v.length ≤ MAX_SIZE := by
  obtain ⟨nSize, mid, first, second⟩ := bind_ok done
  obtain ⟨rfl, small⟩ := readCompactSize_ok first
  rw [chunked_eq read_additive (by omega) (by omega)] at second
  obtain ⟨rfl, length⟩ := read_ok second
  rw [Nat.sub_zero] at length
  rw [bytes_serializeBytes, length, List.append_assoc]
  exact ⟨rfl, small⟩

theorem unserializeBytes_reads (small : v.length ≤ MAX_SIZE) : Reads unserializeBytes v (serializeBytes v).bytes := by
  rw [bytes_serializeBytes]
  refine (readCompactSize_reads small).bind ?_
  rw [chunked_eq read_additive (by omega) (by omega)]
  exact read_reads v

section Vectors

variable {α : Type} {unserialize : StreamReader α} {serialize : α → Writes} {sizeofT : Nat}

variable {v : List α}

theorem unserializeVector_ok (fits : 0 < 5000000 / sizeofT) (canonical : Canonical unserialize fun x => (serialize x).bytes)
    (done : unserializeVector sizeofT unserialize bytes = .ok (v, rest)) :
    bytes = (serializeVector serialize v).bytes ++ rest ∧ v.length ≤ MAX_SIZE := by
  obtain ⟨nSize, mid, first, second⟩ := bind_ok done
  obtain ⟨rfl, small⟩ := readCompactSize_ok first
  rw [chunked_eq (many_additive unserialize) fits (by omega)] at second
  obtain ⟨rfl, length⟩ := many_canonical canonical second
  rw [Nat.sub_zero] at length
  rw [bytes_serializeVector, length, List.append_assoc]
  exact ⟨rfl, small⟩

theorem unserializeVector_length (fits : 0 < 5000000 / sizeofT)
    (done : unserializeVector sizeofT unserialize bytes = .ok (v, rest)) : v.length ≤ MAX_SIZE := by
  obtain ⟨nSize, mid, first, second⟩ := bind_ok done
  obtain ⟨_, small⟩ := readCompactSize_ok first
  rw [chunked_eq (many_additive unserialize) fits (by omega)] at second
  have length := many_length second
  omega

theorem unserializeVector_reads (fits : 0 < 5000000 / sizeofT) (small : v.length ≤ MAX_SIZE)
    (reads : ∀ x ∈ v, Reads unserialize x (serialize x).bytes) :
    Reads (unserializeVector sizeofT unserialize) v (serializeVector serialize v).bytes := by
  rw [bytes_serializeVector]
  refine (readCompactSize_reads small).bind ?_
  rw [chunked_eq (many_additive unserialize) fits (by omega)]
  exact many_reads reads

end Vectors

end DataStream

end SchillingCoin
