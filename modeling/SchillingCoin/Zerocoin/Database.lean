import SchillingCoin.Lib.Checked
import SchillingCoin.Primitives.LevelDB
import SchillingCoin.Primitives.Wire

/-!
The zerocoin database, after `CZerocoinDB` in `txdb.cpp`: the records of spends, mints and accumulator checksums, and the calls
that wipe the records of one kind.
-/

namespace SchillingCoin

open Codec Wire DataStream

abbrev CZerocoinDB := OrderedStore Slice Slice

namespace CZerocoinDB

def SPEND : UInt8 := 's'.toUInt8

def MINT : UInt8 := 'm'.toUInt8

def LZC_ACCUMCS : UInt8 := 'A'.toUInt8

def hashKey (chType : UInt8) (hash : uint256) : Slice := ⟨chType :: uint256Bytes hash⟩

variable (nChecksum : Nat) (denom : Int) (db : CZerocoinDB)

def accChecksumKey : Slice := ⟨LZC_ACCUMCS :: (leBytes 4 nChecksum ++ intBytes 4 denom)⟩

section Writes

variable {PublicCoin CoinSpend : Type} (pubCoinHash : PublicCoin → uint256) (serialHash : CoinSpend → uint256)

variable (db : CZerocoinDB)

def writeCoinMintBatch (mintInfo : List (PublicCoin × uint256)) : CZerocoinDB :=
  mintInfo.foldl (fun db it => db.put (hashKey MINT (pubCoinHash it.1)) ⟨uint256Bytes it.2⟩) db

def eraseCoinMint (pubcoin : PublicCoin) : CZerocoinDB := db.erase (hashKey MINT (pubCoinHash pubcoin))

def writeCoinSpendBatch (spendInfo : List (CoinSpend × uint256)) : CZerocoinDB :=
  spendInfo.foldl (fun db it => db.put (hashKey SPEND (serialHash it.1)) ⟨uint256Bytes it.2⟩) db

def eraseCoinSpend (serial : CoinSpend) : CZerocoinDB := db.erase (hashKey SPEND (serialHash serial))

end Writes

def writeAccChecksum (nChecksum : Nat) (denom nHeight : Int) : CZerocoinDB :=
  db.put (accChecksumKey nChecksum denom) ⟨intBytes 4 nHeight⟩

def eraseAccChecksum (nChecksum : Nat) (denom : Int) : CZerocoinDB := db.erase (accChecksumKey nChecksum denom)

inductive WipeFailure where
  | unrecognizedType (strType : String)
  | deserialize (e : StreamFailure)
  deriving DecidableEq, Repr

section Wipe

variable {α : Type} [DecidableEq α]

/-- The loop over the cursor. What it collects is read from the values of the records. -/
def collect (type : UInt8) (read : StreamReader α) : List (Slice × Slice) → List α → Except WipeFailure (List α)
  | [], setDelete => .ok setDelete
  | (slKey, slValue) :: records, setDelete =>
    match readUInt 1 slKey.data with
    | .error e => .error (.deserialize e)
    | .ok (chType, _) =>
      if chType = type.toNat then
        match read slValue.data with
        | .error e => .error (.deserialize e)
        | .ok (x, _) => collect type read records (setDelete.insert x)
      else .ok setDelete

/-- What both calls do: they collect from the cursor on, and then erase what they have collected under their type. -/
def wipe (type : UInt8) (zero : List UInt8) (read : StreamReader α) (bytes : α → List UInt8) (db : CZerocoinDB) :
    Except WipeFailure CZerocoinDB := do
  let setDelete ← collect type read (db.seek ⟨type :: zero⟩) []
  return setDelete.foldl (fun db x => db.erase ⟨type :: bytes x⟩) db

end Wipe

def wipeCoins (strType : String) : Except WipeFailure CZerocoinDB :=
  if strType ≠ "spends" ∧ strType ≠ "mints" then .error (.unrecognizedType strType)
  else wipe (if strType = "spends" then SPEND else MINT) (uint256Bytes 0) readUInt256 uint256Bytes db

def wipeAccChecksums : Except WipeFailure CZerocoinDB :=
  wipe LZC_ACCUMCS (leBytes 4 0) (readUInt 4) (leBytes 4) db

section Wipe

variable {α : Type} [DecidableEq α] {type : UInt8} {read : StreamReader α} {bytes : α → List UInt8} {width : Nat}

theorem readType_ok {slKey : Slice} (done : readUInt 1 slKey.data = .ok (chType, rest)) :
    slKey.HasType type ↔ chType = type.toNat := by
  obtain ⟨isKey, small⟩ := readUInt_ok done
  have first : slKey.data.head? = some (UInt8.ofNat chType) := by
    rw [isKey]
    rfl
  rw [Slice.HasType, first, Option.some.injEq, ← UInt8.toNat_inj, UInt8.toNat_ofNat', Nat.mod_eq_of_lt (by omega)]

omit [DecidableEq α] in
theorem bytes_take (canonical : Canonical read bytes) (size : ∀ x, (bytes x).length = width) (done : read value = .ok (x, rest)) :
    bytes x = value.take width := by
  rw [canonical _ _ _ done, ← size x, List.take_left]

theorem collect_ok (canonical : Canonical read bytes) (size : ∀ x, (bytes x).length = width)
    (done : collect type read records start = .ok setDelete) (tail : List UInt8) :
    tail ∈ setDelete.map bytes ↔ tail ∈ start.map bytes ∨
      ∃ r ∈ records.takeWhile fun r => decide (r.1.HasType type), tail = r.2.data.take width := by
  induction records generalizing start with
  | nil =>
    obtain rfl : start = setDelete := Except.ok.inj done
    simp
  | cons record records ih =>
    obtain ⟨slKey, slValue⟩ := record
    unfold collect at done
    split at done
    · exact nomatch done
    · next chType _ readKey =>
      have typed : slKey.HasType type ↔ chType = type.toNat := readType_ok readKey
      split at done
      · next same =>
        have here := typed.mpr same
        split at done
        · exact nomatch done
        · next x _ readValue =>
          have written := bytes_take canonical size readValue
          rw [ih done, List.takeWhile_cons, if_pos (by simpa using here)]
          simp only [List.mem_map, List.mem_insert_iff, List.exists_mem_cons_iff, ← written]
          constructor
          · intro h
            rcases h with ⟨y, rfl | member, rfl⟩ | later
            · exact Or.inr (Or.inl rfl)
            · exact Or.inl ⟨y, member, rfl⟩
            · exact Or.inr (Or.inr later)
          · intro h
            rcases h with ⟨y, member, rfl⟩ | rfl | later
            · exact Or.inl ⟨y, Or.inr member, rfl⟩
            · exact Or.inl ⟨x, Or.inl rfl, rfl⟩
            · exact Or.inr later
      · next different =>
        obtain rfl : start = setDelete := Except.ok.inj done
        have stop : ¬slKey.HasType type := fun hasType => different (typed.mp hasType)
        rw [List.takeWhile_cons, if_neg (by simpa using stop)]
        simp

def Names (type : UInt8) (zero : List UInt8) (width : Nat) (db : CZerocoinDB) (tail : List UInt8) : Prop :=
  ∃ slKey slValue, db.get slKey = some slValue ∧ ⟨type :: zero⟩ ≤ slKey ∧ slKey.HasType type ∧ tail = slValue.data.take width

theorem wipe_ok (canonical : Canonical read bytes) (size : ∀ x, (bytes x).length = width) {db : CZerocoinDB}
    (done : wipe type zero read bytes db = .ok db') :
    (∀ slKey tail, slKey = ⟨type :: tail⟩ → Names type zero width db tail → db'.get slKey = none) ∧
      ∀ slKey, (∀ tail, slKey = ⟨type :: tail⟩ → ¬Names type zero width db tail) → db'.get slKey = db.get slKey := by
  unfold wipe at done
  obtain ⟨setDelete, collected, done⟩ := Checked.bind_ok done
  obtain rfl := Except.ok.inj done
  have names : ∀ tail, tail ∈ setDelete.map bytes ↔ Names type zero width db tail := by
    intro tail
    rw [collect_ok canonical size collected]
    constructor
    · intro h
      rcases h with absent | ⟨⟨slKey, slValue⟩, visited, same⟩
      · exact absurd absent List.not_mem_nil
      · obtain ⟨member, least, hasType⟩ := Slice.mem_visited.mp visited
        exact ⟨slKey, slValue, OrderedStore.mem_entries_iff.mp member, least, hasType, same⟩
    · intro h
      obtain ⟨slKey, slValue, found, least, hasType, same⟩ := h
      exact Or.inr ⟨(slKey, slValue), Slice.mem_visited.mpr ⟨OrderedStore.mem_entries_iff.mpr found, least, hasType⟩, same⟩
  have erased : ∀ slKey, slKey ∈ setDelete.map (fun x => (⟨type :: bytes x⟩ : Slice)) ↔
      ∃ tail, slKey = ⟨type :: tail⟩ ∧ Names type zero width db tail := by
    intro slKey
    rw [List.mem_map]
    constructor
    · intro h
      obtain ⟨x, member, rfl⟩ := h
      exact ⟨bytes x, rfl, (names _).mp (List.mem_map_of_mem member)⟩
    · intro h
      obtain ⟨tail, rfl, named⟩ := h
      obtain ⟨x, member, rfl⟩ := List.mem_map.mp ((names tail).mpr named)
      exact ⟨x, member, rfl⟩
  constructor
  · intro slKey tail same named
    rw [OrderedStore.get_foldl_erase (fun x => (⟨type :: bytes x⟩ : Slice)), if_pos ((erased slKey).mpr ⟨tail, same, named⟩)]
  · intro slKey unnamed
    rw [OrderedStore.get_foldl_erase (fun x => (⟨type :: bytes x⟩ : Slice)), if_neg]
    intro gone
    obtain ⟨tail, same, named⟩ := (erased slKey).mp gone
    exact unnamed tail same named

end Wipe

inductive WipeCall where
  | spends
  | mints
  | accChecksums
  deriving DecidableEq, Repr

namespace WipeCall

def run : WipeCall → CZerocoinDB → Except WipeFailure CZerocoinDB
  | spends, db => db.wipeCoins "spends"
  | mints, db => db.wipeCoins "mints"
  | accChecksums, db => db.wipeAccChecksums

def type : WipeCall → UInt8
  | spends => SPEND
  | mints => MINT
  | accChecksums => LZC_ACCUMCS

def width : WipeCall → Nat
  | spends => 32
  | mints => 32
  | accChecksums => 4

def zero : WipeCall → List UInt8
  | spends => uint256Bytes 0
  | mints => uint256Bytes 0
  | accChecksums => leBytes 4 0

end WipeCall

theorem run_spends : WipeCall.spends.run db = wipe SPEND (uint256Bytes 0) readUInt256 uint256Bytes db := by
  simp [WipeCall.run, wipeCoins]

theorem run_mints : WipeCall.mints.run db = wipe MINT (uint256Bytes 0) readUInt256 uint256Bytes db := by
  simp [WipeCall.run, wipeCoins]

theorem readUInt_canonical (width : Nat) : Canonical (readUInt width) (leBytes width) := fun _ _ _ done => (readUInt_ok done).1

theorem run_ok {call : WipeCall} {db : CZerocoinDB} (done : call.run db = .ok db') :
    (∀ slKey tail, slKey = ⟨call.type :: tail⟩ → Names call.type call.zero call.width db tail → db'.get slKey = none) ∧
      ∀ slKey, (∀ tail, slKey = ⟨call.type :: tail⟩ → ¬Names call.type call.zero call.width db tail) → db'.get slKey = db.get slKey := by
  cases call with
  | spends => exact wipe_ok readUInt256_canonical (fun _ => length_leBytes 32 _) (run_spends db ▸ done)
  | mints => exact wipe_ok readUInt256_canonical (fun _ => length_leBytes 32 _) (run_mints db ▸ done)
  | accChecksums => exact wipe_ok (readUInt_canonical 4) (fun _ => length_leBytes 4 _) done

/-- A wipe that succeeds removes the records it names and no others exactly when the rest of each of their keys stands at the
front of the value of some record that the cursor passes. -/
theorem wipe_exact_iff (call : WipeCall) {db db' : CZerocoinDB} (done : call.run db = .ok db') :
    ((∀ slKey, slKey.HasType call.type → db'.get slKey = none) ∧ ∀ slKey, ¬slKey.HasType call.type → db'.get slKey = db.get slKey) ↔
      ∀ slKey tail, slKey = ⟨call.type :: tail⟩ → db.get slKey ≠ none → Names call.type call.zero call.width db tail := by
  obtain ⟨erased, kept⟩ := run_ok done
  constructor
  · intro exactly slKey tail same present
    by_contra unnamed
    have gone := exactly.1 slKey (same ▸ Slice.hasType_cons call.type tail)
    rw [kept slKey] at gone
    · exact present gone
    · intro tail' same'
      obtain rfl : tail' = tail := by
        have both := same'.symm.trans same
        simp only [Slice.mk.injEq, List.cons.injEq, true_and] at both
        exact both
      exact unnamed
  · intro names
    constructor
    · intro slKey hasType
      obtain ⟨bytes⟩ := slKey
      obtain ⟨tail, rfl⟩ := List.head?_eq_some_iff.mp hasType
      by_cases named : Names call.type call.zero call.width db tail
      · exact erased _ tail rfl named
      · have absent : db.get ⟨call.type :: tail⟩ = none := by
          by_contra present
          exact named (names _ tail rfl present)
        rw [kept, absent]
        intro tail' same
        obtain rfl : tail = tail' := by simpa using same
        exact named
    · intro slKey other
      apply kept
      intro tail same
      exact absurd (same ▸ Slice.hasType_cons call.type tail) other

theorem self_named_spend_wiped : ∃ db db' : CZerocoinDB, db.get (hashKey SPEND 0) = some ⟨uint256Bytes 0⟩ ∧
    WipeCall.spends.run db = .ok db' ∧
      ((∀ slKey, slKey.HasType SPEND → db'.get slKey = none) ∧ ∀ slKey, ¬slKey.HasType SPEND → db'.get slKey = db.get slKey) := by
  have done : WipeCall.spends.run (OrderedStore.put ∅ (hashKey SPEND 0) ⟨uint256Bytes 0⟩) =
      .ok (OrderedStore.erase (OrderedStore.put ∅ (hashKey SPEND 0) ⟨uint256Bytes 0⟩) (hashKey SPEND 0)) := by
    rw [run_spends]
    rfl
  refine ⟨_, _, by rw [OrderedStore.get_put, if_pos rfl], done, (wipe_exact_iff .spends done).mpr ?_⟩
  intro slKey tail same present
  rw [OrderedStore.get_put] at present
  split at present
  · next isRecord =>
    refine ⟨hashKey SPEND 0, ⟨uint256Bytes 0⟩, by rw [OrderedStore.get_put, if_pos rfl], le_refl _, rfl, ?_⟩
    have both := same.symm.trans isRecord
    simp only [hashKey, Slice.mk.injEq, List.cons.injEq] at both
    rw [both.2]
    rfl
  · exact absurd rfl present

/-- A spend of serial hash 1 in transaction 2 is still recorded after the spends have been wiped. -/
theorem spend_survives_wipe :
    ¬∀ (call : WipeCall) (db db' : CZerocoinDB), call.run db = .ok db' →
      (∀ slKey, slKey.HasType call.type → db'.get slKey = none) ∧ ∀ slKey, ¬slKey.HasType call.type → db'.get slKey = db.get slKey := by
  intro wiped
  have done : WipeCall.spends.run (OrderedStore.put ∅ (hashKey SPEND 1) ⟨uint256Bytes 2⟩) =
      .ok (OrderedStore.erase (OrderedStore.put ∅ (hashKey SPEND 1) ⟨uint256Bytes 2⟩) (hashKey SPEND 2)) := by
    rw [run_spends]
    rfl
  have gone := (wiped .spends _ _ done).1 (hashKey SPEND 1) rfl
  rw [OrderedStore.get_erase, if_neg (by decide), OrderedStore.get_put, if_pos rfl] at gone
  exact absurd gone (by simp)

inductive Recorded : Slice → Slice → Prop
  | coin (chType : UInt8) (hash txid : uint256) (isCoin : chType = SPEND ∨ chType = MINT) : Recorded (hashKey chType hash) ⟨uint256Bytes txid⟩
  | accChecksum (nChecksum : Nat) (denom nHeight : Int) : Recorded (accChecksumKey nChecksum denom) ⟨intBytes 4 nHeight⟩

def WellFormed : Prop := ∀ slKey slValue, db.get slKey = some slValue → Recorded slKey slValue

inductive ZerocoinWrite (PublicCoin CoinSpend : Type) where
  | coinMints (mintInfo : List (PublicCoin × uint256))
  | eraseCoinMint (pubcoin : PublicCoin)
  | coinSpends (spendInfo : List (CoinSpend × uint256))
  | eraseCoinSpend (serial : CoinSpend)
  | accChecksum (nChecksum : Nat) (denom nHeight : Int)
  | eraseAccChecksum (nChecksum : Nat) (denom : Int)

section Writes

variable {PublicCoin CoinSpend : Type} (pubCoinHash : PublicCoin → uint256) (serialHash : CoinSpend → uint256)

def write (db : CZerocoinDB) : ZerocoinWrite PublicCoin CoinSpend → CZerocoinDB
  | .coinMints mintInfo => db.writeCoinMintBatch pubCoinHash mintInfo
  | .eraseCoinMint pubcoin => db.eraseCoinMint pubCoinHash pubcoin
  | .coinSpends spendInfo => db.writeCoinSpendBatch serialHash spendInfo
  | .eraseCoinSpend serial => db.eraseCoinSpend serialHash serial
  | .accChecksum nChecksum denom nHeight => db.writeAccChecksum nChecksum denom nHeight
  | .eraseAccChecksum nChecksum denom => db.eraseAccChecksum nChecksum denom

theorem WellFormed.put {db : CZerocoinDB} (wellFormed : WellFormed db) {slValue : Slice} (recorded : Recorded slKey slValue) :
    WellFormed (OrderedStore.put db slKey slValue) := by
  intro k v found
  rw [OrderedStore.get_put] at found
  split at found
  · next same =>
    rw [same, ← Option.some.inj found]
    exact recorded
  · exact wellFormed k v found

theorem WellFormed.erase {db : CZerocoinDB} (wellFormed : WellFormed db) (slKey : Slice) : WellFormed (OrderedStore.erase db slKey) := by
  intro k v found
  rw [OrderedStore.get_erase] at found
  split at found
  · exact nomatch found
  · exact wellFormed k v found

theorem WellFormed.putAll {ι : Type} {db : CZerocoinDB} (wellFormed : WellFormed db) {chType : UInt8} (isCoin : chType = SPEND ∨ chType = MINT)
    (hash : ι → uint256) (infos : List (ι × uint256)) :
    WellFormed (infos.foldl (fun db it => OrderedStore.put db (hashKey chType (hash it.1)) ⟨uint256Bytes it.2⟩) db) := by
  induction infos generalizing db with
  | nil => exact wellFormed
  | cons it infos ih => exact ih (wellFormed.put (.coin chType _ _ isCoin))

theorem write_wellFormed {db : CZerocoinDB} (wellFormed : WellFormed db) (w : ZerocoinWrite PublicCoin CoinSpend) :
    WellFormed (write pubCoinHash serialHash db w) := by
  cases w with
  | coinMints mintInfo => exact wellFormed.putAll (Or.inr rfl) pubCoinHash mintInfo
  | eraseCoinMint pubcoin => exact wellFormed.erase _
  | coinSpends spendInfo => exact wellFormed.putAll (Or.inl rfl) serialHash spendInfo
  | eraseCoinSpend serial => exact wellFormed.erase _
  | accChecksum nChecksum denom nHeight => exact wellFormed.put (.accChecksum nChecksum denom nHeight)
  | eraseAccChecksum nChecksum denom => exact wellFormed.erase _

theorem writes_wellFormed (ws : List (ZerocoinWrite PublicCoin CoinSpend)) : WellFormed (ws.foldl (write pubCoinHash serialHash) ∅) := by
  have kept : ∀ db : CZerocoinDB, WellFormed db → WellFormed (ws.foldl (write pubCoinHash serialHash) db) := by
    induction ws with
    | nil => exact fun _ wellFormed => wellFormed
    | cons w ws ih => exact fun db wellFormed => ih _ (write_wellFormed pubCoinHash serialHash wellFormed w)
  exact kept ∅ fun _ _ found => nomatch found

end Writes

theorem wipeAccChecksums_keeps {db : CZerocoinDB} (wellFormed : WellFormed db) (done : WipeCall.accChecksums.run db = .ok db')
    (slKey : Slice) : db'.get slKey = db.get slKey := by
  obtain ⟨erased, kept⟩ := run_ok done
  by_cases named : ∃ tail, slKey = ⟨LZC_ACCUMCS :: tail⟩ ∧ Names LZC_ACCUMCS (leBytes 4 0) 4 db tail
  · obtain ⟨tail, same, isNamed⟩ := named
    rw [erased slKey tail same isNamed]
    cases found : db.get slKey with
    | none => rfl
    | some slValue =>
      exfalso
      obtain ⟨_, value, _, _, _, isTail⟩ := isNamed
      have short : tail.length ≤ 4 := by
        rw [isTail, List.length_take]
        omega
      cases wellFormed slKey slValue found with
      | coin chType hash txid isCoin =>
        have first : chType = LZC_ACCUMCS := (List.cons.inj (Slice.mk.inj same)).1
        rcases isCoin with rfl | rfl
        · exact absurd first (by decide)
        · exact absurd first (by decide)
      | accChecksum nChecksum denom nHeight =>
        have rest := congrArg List.length (List.cons.inj (Slice.mk.inj same)).2
        rw [List.length_append, length_leBytes, intBytes, length_leBytes] at rest
        omega
  · exact kept slKey fun tail same isNamed => named ⟨tail, same, isNamed⟩

theorem zero_le_hashKey (chType : UInt8) (hash : uint256) : (⟨chType :: uint256Bytes 0⟩ : Slice) ≤ hashKey chType hash := by
  have least := Slice.zeros_le chType (uint256Bytes hash)
  rwa [uint256Bytes, length_leBytes] at least

theorem wipeCoins_clears_iff {call : WipeCall} (isCoin : call.type = SPEND ∨ call.type = MINT) {db : CZerocoinDB}
    (wellFormed : WellFormed db) (done : call.run db = .ok db') :
    (∀ hash, db'.get (hashKey call.type hash) = none) ↔
      ∀ hash, db.get (hashKey call.type hash) ≠ none → ∃ hash', db.get (hashKey call.type hash') = some ⟨uint256Bytes hash⟩ := by
  have coins : call.zero = uint256Bytes 0 ∧ call.width = 32 := by
    cases call with
    | spends => exact ⟨rfl, rfl⟩
    | mints => exact ⟨rfl, rfl⟩
    | accChecksums => exact absurd isCoin (by decide)
  have names : ∀ hash, Names call.type call.zero call.width db (uint256Bytes hash) ↔
      ∃ hash', db.get (hashKey call.type hash') = some ⟨uint256Bytes hash⟩ := by
    intro hash
    rw [Names, coins.1, coins.2]
    constructor
    · intro named
      obtain ⟨slKey, slValue, found, _, hasType, isTail⟩ := named
      cases wellFormed slKey slValue found with
      | coin chType hash' txid _ =>
        obtain rfl : chType = call.type := Option.some.inj hasType
        have whole : (uint256Bytes txid).take 32 = uint256Bytes txid := List.take_of_length_le (by rw [uint256Bytes, length_leBytes])
        refine ⟨hash', ?_⟩
        rw [found, isTail, whole]
      | accChecksum nChecksum denom nHeight =>
        have other : call.type = LZC_ACCUMCS := (Option.some.inj hasType).symm
        rw [other] at isCoin
        exact absurd isCoin (by decide)
    · intro named
      obtain ⟨hash', found⟩ := named
      refine ⟨_, _, found, zero_le_hashKey _ _, rfl, ?_⟩
      exact (List.take_of_length_le (by rw [uint256Bytes, length_leBytes])).symm
  obtain ⟨erased, kept⟩ := run_ok done
  constructor
  · intro cleared hash present
    by_contra unnamed
    have gone := cleared hash
    rw [kept] at gone
    · exact present gone
    · intro tail same named
      obtain rfl : uint256Bytes hash = tail := (List.cons.inj (Slice.mk.inj same)).2
      exact unnamed ((names hash).mp named)
  · intro others hash
    by_cases named : Names call.type call.zero call.width db (uint256Bytes hash)
    · exact erased _ _ rfl named
    · rw [kept]
      · by_contra present
        exact named ((names hash).mpr (others hash present))
      · intro tail same isNamed
        obtain rfl : uint256Bytes hash = tail := (List.cons.inj (Slice.mk.inj same)).2
        exact named isNamed

/-- After any writes a wipe of coins that succeeds leaves none exactly where the value of some record of the kind names each of them, and
the wipe of the accumulator checksums leaves all records. -/
theorem wipes_after_writes {PublicCoin CoinSpend : Type} (pubCoinHash : PublicCoin → uint256) (serialHash : CoinSpend → uint256)
    (ws : List (ZerocoinWrite PublicCoin CoinSpend)) :
    let db : CZerocoinDB := ws.foldl (write pubCoinHash serialHash) ∅
    (∀ (call : WipeCall) (db' : CZerocoinDB), call.type = SPEND ∨ call.type = MINT → call.run db = .ok db' →
      ((∀ hash, db'.get (hashKey call.type hash) = none) ↔
        ∀ hash, db.get (hashKey call.type hash) ≠ none → ∃ hash', db.get (hashKey call.type hash') = some ⟨uint256Bytes hash⟩)) ∧
      ∀ db' : CZerocoinDB, WipeCall.accChecksums.run db = .ok db' → ∀ slKey, db'.get slKey = db.get slKey := by
  intro db
  have wellFormed := writes_wellFormed pubCoinHash serialHash ws
  exact ⟨fun call db' isCoin done => wipeCoins_clears_iff isCoin wellFormed done, fun db' done => wipeAccChecksums_keeps wellFormed done⟩

end CZerocoinDB

end SchillingCoin
