import SchillingCoin.Net.AddrManFiled

/-!
What an address manager holds while it reads a file: the entries so far, and of the new table the slots so far.
-/

namespace SchillingCoin.Net

open Codec DataStream Wire

namespace CAddrMan

variable {k : AddrBuckets} {nKey : uint256} {table : Table ADDRMAN_NEW_BUCKET_COUNT} {infos : List CAddrInfo} {info : CAddrInfo}
  {placed : List (NewBucket × BucketPosition)} {s : CAddrMan}

/-- The `n`-th entry as it is read, with the references that it has so far. -/
def readAs (n : Nat) (nRefCount : Int) (info : CAddrInfo) : CAddrInfo :=
  { CAddrInfo.init.readInto info with nRandomPos := n, nRefCount, fInTried := info.fInTried }

/-- The entries `infos` are read, and the slots `placed` of the file's table are filled. -/
structure Loading (k : AddrBuckets) (nKey : uint256) (table : Table ADDRMAN_NEW_BUCKET_COUNT) (infos : List CAddrInfo)
    (placed : List (NewBucket × BucketPosition)) (s : CAddrMan) : Prop where
  key : s.nKey = nKey
  info : ∀ n, s.mapInfo.lookup n = infos[n]?.map (readAs n (placed.countP (Buckets.held table n)))
  random : s.vRandom = List.range infos.length
  addr : ∀ addr n, s.mapAddr.lookup addr = some n ↔ ∃ info, infos[n]? = some info ∧ info.toCNetAddr = addr
  tried : ∀ b i n, s.vvTried b i = some n ↔ ∃ info, infos[n]? = some info ∧ info.fInTried = true ∧
    b = k.getTriedBucket nKey info.toCService ∧ i = k.triedPlace nKey info.toCService
  new : ∀ b i, s.vvNew b i = if (b, i) ∈ placed then table b i else none

def counts (s : CAddrMan) : Nat × Int × Int := (s.nIdCount, s.nNew, s.nTried)

theorem loading_nothing (k : AddrBuckets) (nKey : uint256) (table : Table ADDRMAN_NEW_BUCKET_COUNT) (nNew nTried : Int) :
    Loading k nKey table [] [] { nKey, nNew, nTried } :=
  ⟨rfl, fun _ => rfl, rfl, fun _ _ => ⟨nofun, nofun⟩, fun _ _ _ => ⟨nofun, nofun⟩, fun _ _ => rfl⟩

structure Apart (k : AddrBuckets) (nKey : uint256) (info info' : CAddrInfo) : Prop where
  addr : info.toCNetAddr ≠ info'.toCNetAddr
  place : info.fInTried = true → info'.fInTried = true → k.getTriedBucket nKey info.toCService = k.getTriedBucket nKey info'.toCService →
    k.triedPlace nKey info.toCService ≠ k.triedPlace nKey info'.toCService

theorem getElem?_concat_some : (l ++ [x])[n]? = some y ↔ l[n]? = some y ∨ n = l.length ∧ x = y := by
  rcases Nat.lt_trichotomy n l.length with before | rfl | after
  · rw [List.getElem?_append_left before]
    constructor
    · exact Or.inl
    · intro either
      exact either.resolve_right (by omega)
  · rw [List.getElem?_concat_length, List.getElem?_eq_none (Nat.le_refl _)]
    simp
  · rw [List.getElem?_eq_none (by rw [List.length_append, List.length_singleton]; omega), List.getElem?_eq_none (by omega)]
    simp [show n ≠ l.length by omega]

section

variable (loading : Loading k nKey table infos [] s) (apart : ∀ e ∈ infos, Apart k nKey e info)

include loading apart

theorem Loading.append {vvTried : Table ADDRMAN_TRIED_BUCKET_COUNT} (nIdCount : Nat)
    (tried : ∀ b i n, vvTried b i = some n ↔ s.vvTried b i = some n ∨ n = infos.length ∧ info.fInTried = true ∧ b = k.getTriedBucket nKey info.toCService ∧ i = k.triedPlace nKey info.toCService) :
    Loading k nKey table (infos ++ [info]) []
      { s with
        mapInfo := s.mapInfo.insert infos.length (readAs infos.length 0 info), mapAddr := s.mapAddr.insert info.toCNetAddr infos.length
        vRandom := s.vRandom ++ [infos.length], vvTried, nIdCount } := by
  constructor
  · exact loading.key
  · intro n
    show (s.mapInfo.insert _ _).lookup n = _
    rw [StdMap.lookup_insert_ite, loading.info]
    by_cases last : n = infos.length
    · rw [if_pos last, last, List.getElem?_concat_length]
      rfl
    · rw [if_neg last]
      apply congrArg (Option.map _)
      apply Option.ext
      intro e
      rw [getElem?_concat_some, or_iff_left fun new => last new.1]
  · show s.vRandom ++ [infos.length] = _
    rw [loading.random, List.length_append, List.length_singleton, List.range_succ]
  · intro addr n
    show (s.mapAddr.insert _ _).lookup addr = some n ↔ _
    rw [StdMap.lookup_insert_ite]
    simp only [getElem?_concat_some]
    by_cases same : addr = info.toCNetAddr
    · rw [if_pos same, Option.some.injEq]
      constructor
      · intro last
        exact ⟨info, .inr ⟨last.symm, rfl⟩, same.symm⟩
      · intro ⟨e, listed, isAddr⟩
        rcases listed with old | ⟨last, _⟩
        · exact absurd (isAddr.trans same) (apart e (List.mem_of_getElem? old)).addr
        · exact last.symm
    · rw [if_neg same, loading.addr]
      constructor
      · intro ⟨e, old, isAddr⟩
        exact ⟨e, .inl old, isAddr⟩
      · intro ⟨e, listed, isAddr⟩
        rcases listed with old | ⟨_, rfl⟩
        · exact ⟨e, old, isAddr⟩
        · exact absurd isAddr.symm same
  · intro b i n
    show vvTried b i = some n ↔ _
    rw [tried, loading.tried]
    simp only [getElem?_concat_some]
    constructor
    · intro either
      rcases either with ⟨e, old, place⟩ | ⟨last, place⟩
      · exact ⟨e, .inl old, place⟩
      · exact ⟨info, .inr ⟨last, rfl⟩, place⟩
    · intro ⟨e, listed, place⟩
      rcases listed with old | ⟨last, rfl⟩
      · exact .inl ⟨e, old, place⟩
      · exact .inr ⟨last, place⟩
  · exact loading.new

theorem Loading.enterNew (untried : info.fInTried = false) :
    Loading k nKey table (infos ++ [info]) [] (s.enterNew infos.length { CAddrInfo.init.readInto info with nRandomPos := s.vRandom.length }) := by
  have read : { CAddrInfo.init.readInto info with nRandomPos := s.vRandom.length } = readAs infos.length 0 info := by
    rw [loading.random, List.length_range, readAs, untried]
    rfl
  rw [read]
  refine loading.append apart s.nIdCount ?_
  intro b i n
  rw [untried]
  constructor
  · exact Or.inl
  · intro either
    exact either.resolve_right fun new => nomatch new.2.1

theorem Loading.enterTried (isTried : info.fInTried = true) (ids : s.nIdCount = infos.length) :
    ∃ s', s.enterTriedEntry k (CAddrInfo.init.readInto info) = some s' ∧ Loading k nKey table (infos ++ [info]) [] s' ∧
      s'.counts = (infos.length + 1, s.nNew, s.nTried) := by
  have free : s.vvTried (k.getTriedBucket nKey info.toCService) (k.triedPlace nKey info.toCService) = none := by
    apply Option.eq_none_iff_forall_ne_some.mpr
    intro n here
    obtain ⟨e, listed, tried, bucket, place⟩ := (loading.tried _ _ _).mp here
    exact (apart e (List.mem_of_getElem? listed)).place tried isTried bucket.symm place.symm
  have read : { CAddrInfo.init.readInto info with nRandomPos := s.vRandom.length, fInTried := true } = readAs infos.length 0 info := by
    rw [loading.random, List.length_range, readAs, isTried]
    rfl
  have bucket : s.triedBucket k (CAddrInfo.init.readInto info) = k.getTriedBucket nKey info.toCService := by
    rw [triedBucket, loading.key]
    rfl
  have place : s.triedPos k (CAddrInfo.init.readInto info) = k.triedPlace nKey info.toCService := by
    rw [triedPos, bucket, loading.key]
    rfl
  rw [enterTriedEntry, bucket, place, if_pos free, read, ids]
  refine ⟨_, rfl, loading.append apart _ ?_, rfl⟩
  intro b i n
  rw [Buckets.set_apply]
  by_cases there : b = k.getTriedBucket nKey info.toCService ∧ i = k.triedPlace nKey info.toCService
  · rw [if_pos there, there.1, there.2, free]
    simp [isTried, eq_comm]
  · rw [if_neg there]
    constructor
    · exact Or.inl
    · intro either
      exact either.resolve_right fun new => there new.2.2

end

theorem countP_concat (placed : List (NewBucket × BucketPosition)) (slot : NewBucket × BucketPosition) (n : Nat) :
    (placed ++ [slot]).countP (Buckets.held table n) = placed.countP (Buckets.held table n) + if table slot.1 slot.2 = some n then 1 else 0 := by
  rw [List.countP_append, List.countP_singleton]
  simp only [Buckets.held, decide_eq_true_eq]

theorem Loading.empty (loading : Loading k nKey table infos placed s) (nothing : table b i = none) :
    Loading k nKey table infos (placed ++ [(b, i)]) s := by
  refine ⟨loading.key, ?_, loading.random, loading.addr, loading.tried, ?_⟩
  · intro n
    rw [loading.info, countP_concat, nothing, if_neg nofun, Nat.add_zero]
  · intro b' i'
    rw [loading.new]
    by_cases here : (b', i') = (b, i)
    · obtain ⟨rfl, rfl⟩ := Prod.mk.inj here
      rw [nothing, ite_self, ite_self]
    · have other : (b', i') ∈ placed ++ [(b, i)] ↔ (b', i') ∈ placed := by
        rw [List.mem_append, List.mem_singleton, or_iff_left here]
      simp only [other]

theorem Loading.place (loading : Loading k nKey table infos placed s) (here : table b i = some n)
    (listed : infos[n]? = some info) (place : k.newPlace nKey info.toCService b = i) (fresh : (b, i) ∉ placed)
    (few : placed.countP (Buckets.held table n) < 8) (inside : (n : Int) < s.nNew) :
    Loading k nKey table infos (placed ++ [(b, i)]) (s.placeIndex k true b n) ∧ (s.placeIndex k true b n).counts = s.counts := by
  have found : s.mapInfo.lookup n = some (readAs n (placed.countP (Buckets.held table n)) info) := by rw [loading.info, listed, Option.map_some]
  have pos : s.newPos k (readAs n (placed.countP (Buckets.held table n)) info) b = i := by
    rw [newPos, loading.key]
    exact place
  have free : s.vvNew b i = none := by rw [loading.new, if_neg fresh]
  have counted : ((placed.countP (Buckets.held table n) : Nat) : Int) < ADDRMAN_NEW_BUCKETS_PER_ADDRESS := Int.ofNat_lt.mpr few
  have step : s.placeIndex k true b n =
      { s.setInfo n (readAs n (placed.countP (Buckets.held table n) + 1 : Nat) info) with vvNew := Buckets.set s.vvNew b i (some n) } := by
    rw [placeIndex, if_neg (by omega), Int.toNat_natCast, found]
    dsimp only
    rw [dif_pos b.isLt, pos, if_pos ⟨rfl, free, counted⟩]
    rfl
  rw [step]
  refine ⟨⟨loading.key, ?_, loading.random, loading.addr, loading.tried, ?_⟩, rfl⟩
  · intro n'
    show (s.mapInfo.insert _ _).lookup n' = _
    rw [StdMap.lookup_insert_ite, countP_concat, here, loading.info]
    by_cases same : n' = n
    · rw [if_pos same, same, listed, if_pos rfl, Option.map_some]
    · rw [if_neg same, if_neg (fun isN => same (Option.some.inj isN).symm), Nat.add_zero]
  · intro b' i'
    show Buckets.set s.vvNew b i (some n) b' i' = _
    rw [Buckets.set_apply, loading.new]
    by_cases there : b' = b ∧ i' = i
    · rw [if_pos there, if_pos (by simp [there]), there.1, there.2, here]
    · have other : (b', i') ∈ placed ++ [(b, i)] ↔ (b', i') ∈ placed := by
        rw [List.mem_append, List.mem_singleton, or_iff_left fun same => there (Prod.mk.inj same)]
      rw [if_neg there]
      simp only [other]

end CAddrMan

end SchillingCoin.Net
