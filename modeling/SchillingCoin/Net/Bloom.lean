import SchillingCoin.Lib.BitString
import SchillingCoin.Primitives.Wire
import SchillingCoin.Script.Iterators

/-!
Bloom filters, after `bloom.cpp` and `MurmurHash3` of `hash.cpp`. A remainder by zero and an access outside a vector stop the call.
-/

namespace SchillingCoin

open Codec DataStream

def MAX_BLOOM_FILTER_SIZE : Nat := 36000
def MAX_HASH_FUNCS : UInt32 := 50

def BLOOM_UPDATE_ALL : UInt8 := 1
def BLOOM_UPDATE_P2PUBKEY_ONLY : UInt8 := 2
def BLOOM_UPDATE_MASK : UInt8 := 3

inductive BloomStop where
  | divisionByZero
  | memory (fault : Fault)
  | thrown (failure : StreamFailure)
  deriving DecidableEq, Repr

namespace MurmurHash

def rotl32 (x r : UInt32) : UInt32 := x <<< r ||| x >>> (32 - r)

def mixKey (k1 : UInt32) : UInt32 := rotl32 (k1 * 0xcc9e2d51) 15 * 0x1b873593

def body (h1 : UInt32) : List UInt8 → UInt32 × List UInt8
  | b0 :: b1 :: b2 :: b3 :: rest =>
    body (rotl32 (h1 ^^^ mixKey (UInt32.ofNat (leValue [b0, b1, b2, b3]))) 13 * 5 + 0xe6546b64) rest
  | tail => (h1, tail)

def finalize (h1 : UInt32) : UInt32 :=
  let h1 := (h1 ^^^ h1 >>> 16) * 0x85ebca6b
  let h1 := (h1 ^^^ h1 >>> 13) * 0xc2b2ae35
  h1 ^^^ h1 >>> 16

end MurmurHash

open MurmurHash in
def murmurHash3 (nHashSeed : UInt32) (vDataToHash : List UInt8) : UInt32 :=
  let blocks := body nHashSeed vDataToHash
  let h1 := if blocks.2 = [] then blocks.1 else blocks.1 ^^^ mixKey (UInt32.ofNat (leValue blocks.2))
  finalize (h1 ^^^ UInt32.ofNat vDataToHash.length)

example : murmurHash3 0xFBA4C795 [0x00] = 0xea3f0b17 := by decide

structure CBloomFilter where
  vData : List UInt8 := []
  isFull : Bool := true
  isEmpty : Bool := false
  nHashFuncs : UInt32 := 0
  nTweak : UInt32 := 0
  nFlags : UInt8 := 0
  deriving DecidableEq, Repr

namespace CBloomFilter

open Access

/-- The flags are not read. -/
def unserialize (filter : CBloomFilter) : StreamReader CBloomFilter := do
  let vData ← unserializeBytes
  let nHashFuncs ← readUInt 4
  let nTweak ← readUInt 4
  let nFlags ← readUInt 1
  return { filter with
    vData, nHashFuncs := UInt32.ofNat nHashFuncs, nTweak := UInt32.ofNat nTweak, nFlags := UInt8.ofNat nFlags }

variable (f : CBloomFilter) (vKey : List UInt8)

def isWithinSizeConstraints : Bool :=
  decide (f.vData.length ≤ MAX_BLOOM_FILTER_SIZE) && decide (f.nHashFuncs ≤ MAX_HASH_FUNCS)

def updateEmptyFull : CBloomFilter :=
  { f with
    isFull := f.vData.all (· == 0xff)
    isEmpty := f.vData.all (· == 0) }

def hashValue (nHashNum : Nat) (vDataToHash : List UInt8) : Nat :=
  (murmurHash3 (UInt32.ofNat nHashNum * 0xFBA4C795 + f.nTweak) vDataToHash).toNat

def hash (nHashNum : Nat) (vDataToHash : List UInt8) : Except BloomStop Nat :=
  if f.vData.length * 8 = 0 then .error .divisionByZero
  else .ok (f.hashValue nHashNum vDataToHash % (f.vData.length * 8))

def byteAt (nIndex : Nat) : Except BloomStop UInt8 := (element f.vData (nIndex / 8)).mapError .memory

def setBit (f : CBloomFilter) (i : Nat) : Except BloomStop CBloomFilter :=
  (f.hash i vKey).bind fun nIndex => (f.byteAt nIndex).map fun byte =>
    { f with vData := f.vData.set (nIndex / 8) (byte ||| 1 <<< UInt8.ofNat (nIndex % 8)) }

def insertLoop (vKey : List UInt8) : List Nat → CBloomFilter → Except BloomStop CBloomFilter
  | [], f => .ok f
  | i :: rest, f => (setBit vKey f i).bind (insertLoop vKey rest)

def insert : Except BloomStop CBloomFilter :=
  if f.isFull then .ok f
  else (insertLoop vKey (List.range f.nHashFuncs.toNat) f).map fun f => { f with isEmpty := false }

def containsLoop (f : CBloomFilter) (vKey : List UInt8) : List Nat → Except BloomStop Bool
  | [] => .ok true
  | i :: rest => (f.hash i vKey).bind fun nIndex => (f.byteAt nIndex).bind fun byte =>
    if byte &&& 1 <<< UInt8.ofNat (nIndex % 8) > 0 then f.containsLoop vKey rest else .ok false

def contains : Except BloomStop Bool :=
  if f.isFull then .ok true
  else if f.isEmpty then .ok false
  else f.containsLoop vKey (List.range f.nHashFuncs.toNat)

def outPointKey (outpoint : COutPoint) : List UInt8 := (Wire.serializeOutPoint outpoint).bytes

def hashKey (hash : uint256) : List UInt8 := Wire.uint256Bytes hash

def place (i : Nat) : Nat := f.hashValue i vKey % (f.vData.length * 8)

def bit (p : Nat) : Bool := (f.vData.getD (p / 8) 0).toNat.testBit (p % 8)

def has : Bool :=
  f.isFull || !f.isEmpty && (List.range f.nHashFuncs.toNat).all fun i => f.bit (f.place vKey i)

def Shielded : Prop := f.isFull = true ∨ f.vData ≠ []

structure Grows (f g : CBloomFilter) : Prop where
  size : g.vData.length = f.vData.length
  isFull : g.isFull = f.isFull
  nHashFuncs : g.nHashFuncs = f.nHashFuncs
  nTweak : g.nTweak = f.nTweak
  nFlags : g.nFlags = f.nFlags
  isEmpty : f.isEmpty = false → g.isEmpty = false
  bits : ∀ p, f.bit p = true → g.bit p = true

theorem Grows.refl : Grows f f := ⟨rfl, rfl, rfl, rfl, rfl, id, fun _ => id⟩

variable {f g : CBloomFilter}

theorem Grows.trans (first : Grows f g) (second : Grows g h) : Grows f h where
  size := second.size.trans first.size
  isFull := second.isFull.trans first.isFull
  nHashFuncs := second.nHashFuncs.trans first.nHashFuncs
  nTweak := second.nTweak.trans first.nTweak
  nFlags := second.nFlags.trans first.nFlags
  isEmpty full := second.isEmpty (first.isEmpty full)
  bits p set := second.bits p (first.bits p set)

theorem Grows.place_eq (grows : Grows f g) (vKey : List UInt8) (i : Nat) :
    g.place vKey i = f.place vKey i := by
  simp only [place, hashValue, grows.size, grows.nTweak]

theorem Grows.shielded (grows : Grows f g) (shielded : f.Shielded) : g.Shielded := by
  apply shielded.imp
  · intro full
    rw [grows.isFull, full]
  · intro data
    apply List.ne_nil_of_length_pos
    rw [grows.size]
    exact List.length_pos_of_ne_nil data

theorem Grows.has (grows : Grows f g) {vKey : List UInt8} (known : f.has vKey = true) :
    g.has vKey = true := by
  unfold CBloomFilter.has at known ⊢
  rw [grows.isFull, grows.nHashFuncs]
  apply Bool.or_eq_true_iff.mpr
  apply (Bool.or_eq_true_iff.mp known).imp_right
  intro known
  obtain ⟨notEmpty, all⟩ := Bool.and_eq_true_iff.mp known
  rw [grows.isEmpty (Bool.not_eq_true' _ ▸ notEmpty)]
  apply List.all_eq_true.mpr
  intro i member
  rw [grows.place_eq]
  exact grows.bits _ (List.all_eq_true.mp all i member)

theorem updateEmptyFull_shielded (f : CBloomFilter) : f.updateEmptyFull.Shielded := by
  cases data : f.vData with
  | nil => exact .inl (by simp [updateEmptyFull, data])
  | cons byte rest => exact .inr (by simp [updateEmptyFull, data])

section Shielded

variable {f : CBloomFilter} (data : f.vData ≠ [])

variable (vKey : List UInt8) (i : Nat)

include data in
theorem place_lt : f.place vKey i / 8 < f.vData.length := by
  have size := List.length_pos_of_ne_nil data
  have small : f.place vKey i < f.vData.length * 8 := Nat.mod_lt _ (by omega)
  omega

include data in
theorem hash_ok : f.hash i vKey = .ok (f.place vKey i) := by
  have size := List.length_pos_of_ne_nil data
  rw [hash, if_neg (by omega), place]

include data in
theorem byteAt_ok : f.byteAt (f.place vKey i) = .ok (f.vData.getD (f.place vKey i / 8) 0) := by
  rw [byteAt, element_ok (List.getElem?_eq_getElem (place_lt data vKey i)), List.getD_eq_getElem _ _ (place_lt data vKey i)]
  rfl

include data in
theorem setBit_ok : ∃ g, setBit vKey f i = .ok g ∧ Grows f g ∧ g.isEmpty = f.isEmpty ∧ g.bit (f.place vKey i) = true := by
  have inside := place_lt data vKey i
  rw [setBit, hash_ok data]
  dsimp only [Except.bind]
  rw [byteAt_ok data]
  have bits : ∀ p, ({ f with
      vData := f.vData.set (f.place vKey i / 8) (f.vData.getD (f.place vKey i / 8) 0 ||| 1 <<< UInt8.ofNat (f.place vKey i % 8)) } :
      CBloomFilter).bit p = (f.bit p || decide (f.place vKey i = p)) := by
    intro p
    unfold bit
    dsimp only
    by_cases here : p / 8 = f.place vKey i / 8
    · have set : ∀ byte, (f.vData.set (f.place vKey i / 8) byte).getD (p / 8) 0 = byte := by
        intro byte
        rw [here, List.getD_eq_getElem?_getD, List.getElem?_set_self inside]
        rfl
      rw [set, BitString.testBit_or_shift _ (Nat.mod_lt _ (by decide)) (Nat.mod_lt _ (by decide)), here]
      congr 1
      apply decide_eq_decide.mpr
      omega
    · rw [List.getD_eq_getElem?_getD, List.getElem?_set_ne (Ne.symm here), ← List.getD_eq_getElem?_getD, decide_eq_false (by omega),
        Bool.or_false]
  refine ⟨_, rfl, ⟨List.length_set, rfl, rfl, rfl, rfl, id, ?_⟩, rfl, ?_⟩
  · intro p set
    rw [bits, set, Bool.true_or]
  · rw [bits, decide_eq_true rfl, Bool.or_true]

end Shielded

theorem insertLoop_ok (nums : List Nat) (data : f.vData ≠ []) :
    ∃ g, insertLoop vKey nums f = .ok g ∧ Grows f g ∧ ∀ i ∈ nums, g.bit (f.place vKey i) = true := by
  induction nums generalizing f with
  | nil => exact ⟨f, rfl, .refl f, fun i member => nomatch member⟩
  | cons i rest ih =>
    obtain ⟨g, first, grows, _, set⟩ := setBit_ok data vKey i
    have data' : g.vData ≠ [] := by
      apply List.ne_nil_of_length_pos
      rw [grows.size]
      exact List.length_pos_of_ne_nil data
    obtain ⟨h, others, grows', all⟩ := ih data'
    refine ⟨h, ?_, grows.trans grows', ?_⟩
    · rw [insertLoop, first]
      exact others
    · intro j member
      rcases List.mem_cons.mp member with rfl | later
      · exact grows'.bits _ set
      · rw [← grows.place_eq]
        exact all j later

theorem insert_ok (shielded : f.Shielded) (vKey : List UInt8) :
    ∃ g, f.insert vKey = .ok g ∧ Grows f g ∧ g.has vKey = true := by
  unfold insert
  cases full : f.isFull with
  | true => exact ⟨f, rfl, .refl f, by simp [has, full]⟩
  | false =>
    have data : f.vData ≠ [] := shielded.resolve_left (by simp [full])
    obtain ⟨g, looped, grows, all⟩ := insertLoop_ok vKey (List.range f.nHashFuncs.toNat) data
    have flagged : Grows g { g with isEmpty := false } := ⟨rfl, rfl, rfl, rfl, rfl, fun _ => rfl, fun _ => id⟩
    refine ⟨_, by rw [looped]; rfl, grows.trans flagged, ?_⟩
    -- The flag plays no part in the places and in the bits.
    show (g.isFull || !false && (List.range g.nHashFuncs.toNat).all fun i => g.bit (g.place vKey i)) = true
    rw [grows.nHashFuncs]
    apply Bool.or_eq_true_iff.mpr
    right
    apply List.all_eq_true.mpr
    intro i member
    rw [grows.place_eq]
    exact all i member

theorem containsLoop_ok (data : f.vData ≠ []) (vKey : List UInt8) (nums : List Nat) :
    f.containsLoop vKey nums = .ok (nums.all fun i => f.bit (f.place vKey i)) := by
  induction nums with
  | nil => rfl
  | cons i rest ih =>
    have asked := BitString.testBit_and_shift (f.vData.getD (f.place vKey i / 8) 0) (Nat.mod_lt (f.place vKey i) (show 0 < 8 by decide))
    rw [containsLoop, hash_ok data]
    dsimp only [Except.bind]
    rw [byteAt_ok data]
    dsimp only
    rw [List.all_cons, bit, ← asked]
    by_cases set : f.vData.getD (f.place vKey i / 8) 0 &&& 1 <<< UInt8.ofNat (f.place vKey i % 8) > 0
    · rw [if_pos set, ih, decide_eq_true set, Bool.true_and]
    · rw [if_neg set, decide_eq_false set, Bool.false_and]

theorem contains_ok (shielded : f.Shielded) (vKey : List UInt8) : f.contains vKey = .ok (f.has vKey) := by
  unfold contains has
  cases full : f.isFull with
  | true => rfl
  | false =>
    rw [if_neg (by decide)]
    cases f.isEmpty with
    | true => rfl
    | false => exact containsLoop_ok (shielded.resolve_left (by simp [full])) vKey _

end CBloomFilter

end SchillingCoin
