import SchillingCoin.Net.AddrManLoading

/-!
That the address manager is read back from its file with all its entries and places.
-/

namespace SchillingCoin.Net

open Codec DataStream Wire

namespace CAddrMan

variable {k : AddrBuckets} {A : CAddrMan} {nKey : uint256} {table : Table ADDRMAN_NEW_BUCKET_COUNT} {infos : List CAddrInfo}
  {placed rest : List (NewBucket × BucketPosition)} {s : CAddrMan} {nNew : Int}

theorem infosBytes_cons (nVersion : Int) (info : CAddrInfo) (todo : List CAddrInfo) :
    infosBytes nVersion (info :: todo) = (info.serialize nVersion).bytes ++ infosBytes nVersion todo := List.flatMap_cons

theorem apart_next (apart : (infos ++ info :: todo).Pairwise (Apart k nKey)) :
    ∀ e ∈ infos, Apart k nKey e info := fun e member => (List.pairwise_append.mp apart).2.2 e member info List.mem_cons_self

theorem loadNewEntries_reads (nVersion : Int) (todo : List CAddrInfo) (typed : ∀ info ∈ todo, info.Typed) (untried : ∀ info ∈ todo, info.fInTried = false)
    (loading : Loading k nKey table infos [] s) (apart : (infos ++ todo).Pairwise (Apart k nKey)) :
    ∃ s', Reads (loadNewEntries k true (List.range' infos.length todo.length) s) s' (infosBytes nVersion todo) ∧
      Loading k nKey table (infos ++ todo) [] s' ∧ s'.counts = s.counts := by
  induction todo generalizing infos s with
  | nil => exact ⟨s, Reads.pure s, by rwa [List.append_nil], rfl⟩
  | cons info todo ih =>
    have absent : s.mapInfo.lookup infos.length = none := by rw [loading.info, List.getElem?_eq_none (Nat.le_refl _), Option.map_none]
    have read := fromStream_reads (CAddrInfo.unserialize_reads (typed info List.mem_cons_self) nVersion .init)
    have entered := loading.enterNew (apart_next apart) (untried info List.mem_cons_self)
    rw [List.append_cons] at apart ⊢
    obtain ⟨s', reads, loaded, counts⟩ := ih (fun e member => typed e (List.mem_cons_of_mem _ member))
      (fun e member => untried e (List.mem_cons_of_mem _ member)) entered apart
    refine ⟨s', ?_, loaded, counts⟩
    rw [List.length_cons, List.range'_succ, loadNewEntries, absent, infosBytes_cons]
    rw [List.length_append, List.length_singleton] at reads
    exact read.bind reads

theorem loadTriedEntries_reads (nVersion : Int) (todo : List CAddrInfo) (typed : ∀ info ∈ todo, info.Typed) (tried : ∀ info ∈ todo, info.fInTried = true)
    (loading : Loading k nKey table infos [] s) (apart : (infos ++ todo).Pairwise (Apart k nKey)) (ids : s.nIdCount = infos.length) :
    ∃ s', Reads (loadTriedEntries k todo.length { man := s }) { man := s' } (infosBytes nVersion todo) ∧
      Loading k nKey table (infos ++ todo) [] s' ∧ s'.counts = ((infos ++ todo).length, s.nNew, s.nTried) := by
  induction todo generalizing infos s with
  | nil => exact ⟨s, Reads.pure _, by rwa [List.append_nil], by rw [List.append_nil, counts, ids]⟩
  | cons info todo ih =>
    have read := fromStream_reads (CAddrInfo.unserialize_reads (typed info List.mem_cons_self) nVersion .init)
    obtain ⟨next, entered, loadingNext, counted⟩ := loading.enterTried (apart_next apart) (tried info List.mem_cons_self) ids
    have idsNext : next.nIdCount = (infos ++ [info]).length := by
      rw [List.length_append, List.length_singleton]
      exact congrArg Prod.fst counted
    rw [List.append_cons] at apart ⊢
    obtain ⟨s', reads, loaded, counts⟩ := ih (fun e member => typed e (List.mem_cons_of_mem _ member))
      (fun e member => tried e (List.mem_cons_of_mem _ member)) loadingNext apart idsNext
    refine ⟨s', ?_, loaded, ?_⟩
    · rw [List.length_cons, loadTriedEntries, infosBytes_cons]
      apply read.bind
      rw [Loaded.addTried, entered]
      exact reads
    · rw [counts, show next.nNew = s.nNew from congrArg (fun c => c.2.1) counted, show next.nTried = s.nTried from congrArg (fun c => c.2.2) counted]

structure Readable (k : AddrBuckets) (nKey : uint256) (table : Table ADDRMAN_NEW_BUCKET_COUNT) (infos : List CAddrInfo) (nNew : Int) :
    Prop where
  named : ∀ {b i n}, table b i = some n → ∃ info, infos[n]? = some info ∧ k.newPlace nKey info.toCService b = i ∧ (n : Int) < nNew
  few : ∀ n, (slots ADDRMAN_NEW_BUCKET_COUNT).countP (Buckets.held table n) ≤ 8
  small : nNew ≤ 65536

theorem indexBytes_cons (n : Nat) (ids : List Nat) : indexBytes (n :: ids) = intBytes 4 n ++ indexBytes ids := List.flatMap_cons

theorem loadIndices_reads (readable : Readable k nKey table infos nNew) {b : NewBucket} (positions : List BucketPosition)
    (loading : Loading k nKey table infos placed s) (count : s.nNew = nNew)
    (split : placed ++ (positions.map (Prod.mk b) ++ rest) = slots ADDRMAN_NEW_BUCKET_COUNT) :
    ∃ s', Reads (loadIndices k true b (positions.filterMap (table b)).length s) s' (indexBytes (positions.filterMap (table b))) ∧
      Loading k nKey table infos (placed ++ positions.map (Prod.mk b)) s' ∧ s'.counts = s.counts := by
  induction positions generalizing placed s with
  | nil => exact ⟨s, Reads.pure s, by rwa [List.map_nil, List.append_nil], rfl⟩
  | cons i positions ih =>
    have splitNext : placed ++ [(b, i)] ++ (positions.map (Prod.mk b) ++ rest) = slots ADDRMAN_NEW_BUCKET_COUNT := by
      rw [← split, List.map_cons, List.append_assoc]
      rfl
    rw [List.map_cons, List.append_cons]
    cases here : table b i with
    | none =>
      rw [List.filterMap_cons_none here]
      exact ih (loading.empty here) count splitNext
    | some n =>
      obtain ⟨info, listed, place, inside⟩ := readable.named here
      have distinct := nodup_slots ADDRMAN_NEW_BUCKET_COUNT
      have total := readable.few n
      rw [← splitNext, List.append_assoc] at distinct total
      have fresh : (b, i) ∉ placed := fun member =>
        List.disjoint_of_nodup_append distinct member (List.mem_append_left _ List.mem_cons_self)
      rw [List.countP_append, List.singleton_append, List.countP_cons_of_pos (by rw [Buckets.held, decide_eq_true here])] at total
      obtain ⟨loadingNext, counted⟩ := loading.place here listed place fresh (by omega) (count ▸ inside)
      have countNext : (s.placeIndex k true b n).nNew = nNew := (congrArg (fun c => c.2.1) counted).trans count
      obtain ⟨s', reads, loaded, counts⟩ := ih loadingNext countNext splitNext
      have small := readable.small
      have index : Reads (fromStream (readInt 4)) (n : Int) (intBytes 4 n) :=
        fromStream_reads (readInt_reads (by decide) (inInt_of_small (by omega)))
      refine ⟨s', ?_, loaded, counts.trans counted⟩
      rw [List.filterMap_cons_some here, List.length_cons, indexBytes_cons, loadIndices]
      exact index.bind reads

def bucketWire (table : Table ADDRMAN_NEW_BUCKET_COUNT) (b : NewBucket) : List UInt8 :=
  intBytes 4 ((List.finRange ADDRMAN_BUCKET_SIZE).filterMap (table b)).length ++ indexBytes ((List.finRange ADDRMAN_BUCKET_SIZE).filterMap (table b))

def bucketSlots (b : NewBucket) : List (NewBucket × BucketPosition) := (List.finRange ADDRMAN_BUCKET_SIZE).map (Prod.mk b)

theorem slots_eq (count : Nat) : slots count = (List.finRange count).flatMap fun b => (List.finRange ADDRMAN_BUCKET_SIZE).map (Prod.mk b) := rfl

theorem loadBuckets_reads (readable : Readable k nKey table infos nNew) (buckets : List NewBucket)
    (loading : Loading k nKey table infos placed s) (count : s.nNew = nNew)
    (split : placed ++ buckets.flatMap bucketSlots = slots ADDRMAN_NEW_BUCKET_COUNT) :
    ∃ s', Reads (loadBuckets k true (buckets.map Fin.val) s) s' (buckets.flatMap (bucketWire table)) ∧
      Loading k nKey table infos (slots ADDRMAN_NEW_BUCKET_COUNT) s' ∧ s'.counts = s.counts := by
  induction buckets generalizing placed s with
  | nil =>
    rw [List.flatMap_nil, List.append_nil] at split
    exact ⟨s, Reads.pure s, split ▸ loading, rfl⟩
  | cons b buckets ih =>
    rw [List.flatMap_cons] at split
    obtain ⟨mid, indices, loadingMid, countsMid⟩ := loadIndices_reads readable (List.finRange ADDRMAN_BUCKET_SIZE) loading count split
    have countMid : mid.nNew = nNew := (congrArg (fun c => c.2.1) countsMid).trans count
    obtain ⟨s', reads, loaded, counts⟩ := ih loadingMid countMid ((List.append_assoc _ _ _).trans split)
    have short : ((List.finRange ADDRMAN_BUCKET_SIZE).filterMap (table b)).length ≤ ADDRMAN_BUCKET_SIZE :=
      (List.length_filterMap_le _ _).trans_eq List.length_finRange
    have size : Reads (fromStream (readInt 4)) (((List.finRange ADDRMAN_BUCKET_SIZE).filterMap (table b)).length : Int)
        (intBytes 4 ((List.finRange ADDRMAN_BUCKET_SIZE).filterMap (table b)).length) :=
      fromStream_reads (readInt_reads (by decide) (inInt_of_small (short.trans (by decide))))
    refine ⟨s', ?_, loaded, counts.trans countsMid⟩
    rw [List.map_cons, List.flatMap_cons, loadBuckets, bucketWire, List.append_assoc]
    apply size.bind
    rw [Int.toNat_natCast]
    exact indices.bind reads

theorem apart_fileInfos (passed : A.Passed k) : A.fileInfos.Pairwise (Apart k A.nKey) := by
  rw [fileInfos, List.pairwise_map]
  apply (List.pairwise_map.mp A.nodup_filed).imp_of_mem
  intro e e' member member' differ
  have found := mem_filed.mp member
  have found' := mem_filed.mp member'
  constructor
  · intro same
    exact differ (passed.addr_unique found found' same)
  · intro tried tried' bucket place
    have slot := passed.slot found tried
    have slot' : A.vvTried (A.triedBucket k e.2) (A.triedPos k e.2) = some e'.1 := by
      have there := passed.slot found' tried'
      rwa [← show A.triedBucket k e.2 = A.triedBucket k e'.2 from bucket, ← show A.triedPos k e.2 = A.triedPos k e'.2 from place] at there
    exact differ (Option.some.inj (slot.symm.trans slot'))

theorem refs_le (passed : A.Passed k) (found : A.mapInfo.lookup n = some info) : info.nRefCount ≤ 8 := by
  cases tried : info.fInTried with
  | true =>
    rw [(passed.entry found).unused tried]
    decide
  | false => exact ((passed.entry found).used tried).2

theorem readable_fileTable (passed : A.Passed k) : Readable k A.nKey A.fileTable A.fileInfos A.nNew := by
  constructor
  · intro b i j here
    obtain ⟨n, info, found, rfl, untried, place⟩ := of_fileTable passed here
    exact ⟨info, fileInfos_fileId found, place, fileId_lt passed found untried⟩
  · intro j
    by_cases none_ : (slots ADDRMAN_NEW_BUCKET_COUNT).countP (Buckets.held A.fileTable j) = 0
    · omega
    · obtain ⟨slot, _, held⟩ := List.countP_pos_iff.mp (Nat.pos_of_ne_zero none_)
      obtain ⟨n, info, found, rfl, _⟩ := of_fileTable passed (of_decide_eq_true held)
      have few := refs_le passed found
      rw [refs_fileTable passed found] at few
      omega
  · rw [nNew_eq passed]
    exact Int.ofNat_le.mpr (newEntries_length passed)

theorem Loading.recount (loading : Loading k nKey table infos placed s) (nIdCount : Nat) (nTried : Int) :
    Loading k nKey table infos placed { s with nIdCount, nTried } :=
  ⟨loading.key, loading.info, loading.random, loading.addr, loading.tried, loading.new⟩

section Loaded

variable (passed : A.Passed k) (loading : Loading k A.nKey A.fileTable A.fileInfos (slots ADDRMAN_NEW_BUCKET_COUNT) s)

include passed loading

theorem loaded_entry (found : A.mapInfo.lookup n = some info) :
    s.mapInfo.lookup (A.fileId n) = some (readAs (A.fileId n) info.nRefCount info) := by
  rw [loading.info, fileInfos_fileId found, Option.map_some, ← refs_fileTable passed found]

theorem of_loaded {read : CAddrInfo} (found : s.mapInfo.lookup j = some read) :
    ∃ n info, A.mapInfo.lookup n = some info ∧ A.fileId n = j ∧ read = readAs j info.nRefCount info := by
  obtain ⟨info, listed, _⟩ := Option.map_eq_some_iff.mp ((loading.info j).symm.trans found)
  obtain ⟨n, found', rfl⟩ := of_fileInfos listed
  exact ⟨n, info, found', rfl, Option.some.inj (found.symm.trans (loaded_entry passed loading found'))⟩

theorem unreferenced_loaded : s.unreferenced = [] := by
  rw [unreferenced, List.map_eq_nil_iff, List.filter_eq_nil_iff]
  intro e member pruned
  obtain ⟨n, info, found, _, read⟩ := of_loaded passed loading (StdMap.mem_entries_iff.mp (s.inOrder_perm.mem_iff.mp member))
  rw [read, Bool.and_eq_true, Bool.not_eq_true', beq_iff_eq] at pruned
  have used := (passed.entry found).used pruned.1
  have unused : info.nRefCount = 0 := pruned.2
  omega

end Loaded

section Whole

variable (passed : A.Passed k) (typed : ∀ n info, A.mapInfo.lookup n = some info → info.Typed)

include passed typed

theorem typed_fileInfos : ∀ info ∈ A.newEntries ++ A.triedEntries, info.Typed := by
  intro info member
  rw [← fileInfos_eq passed] at member
  obtain ⟨j, listed⟩ := List.mem_iff_getElem?.mp member
  obtain ⟨n, found, _⟩ := of_fileInfos listed
  exact typed n info found

theorem loadRest_reads (nVersion : Int) (loading : Loading k A.nKey A.fileTable A.newEntries [] s) (new : s.nNew = A.nNew) :
    ∃ s', Reads (loadRest k A.header s) { man := s' }
        (infosBytes nVersion A.triedEntries ++ (List.finRange ADDRMAN_NEW_BUCKET_COUNT).flatMap A.bucketBytes) ∧
      Loading k A.nKey A.fileTable A.fileInfos (slots ADDRMAN_NEW_BUCKET_COUNT) s' ∧ s'.counts = (A.fileInfos.length, A.nNew, A.nTried) := by
  have apart := apart_fileInfos passed
  rw [fileInfos_eq passed] at apart
  have isTried : ∀ info ∈ A.triedEntries, info.fInTried = true := by
    intro info member
    obtain ⟨e, listed, rfl⟩ := List.mem_map.mp member
    exact (List.mem_filter.mp listed).2
  obtain ⟨s₁, entries, loading₁, counts₁⟩ := loadTriedEntries_reads nVersion A.triedEntries
    (fun info member => typed_fileInfos passed typed info (List.mem_append_right _ member)) isTried
    (loading.recount A.newEntries.length s.nTried) apart rfl
  rw [← fileInfos_eq passed] at loading₁ counts₁
  have new₁ : s₁.nNew = A.nNew := (congrArg (fun c => c.2.1) counts₁).trans new
  obtain ⟨s₂, buckets, loading₂, counts₂⟩ := loadBuckets_reads (readable_fileTable passed) (List.finRange ADDRMAN_NEW_BUCKET_COUNT)
    (loading₁.recount s₁.nIdCount A.nTried) new₁ ((List.nil_append _).trans (slots_eq _).symm)
  refine ⟨s₂, ?_, loading₂, ?_⟩
  · have buckets' : Reads (loadBuckets k A.header.usable (List.range A.header.nUBuckets.toNat) { s₁ with nTried := A.header.nTried - (0 : Nat) })
        s₂ ((List.finRange ADDRMAN_NEW_BUCKET_COUNT).flatMap A.bucketBytes) := by
      rw [header_usable, show A.header.nUBuckets.toNat = ADDRMAN_NEW_BUCKET_COUNT from Int.toNat_natCast _, range_buckets,
        show A.header.nTried - (0 : Nat) = A.nTried from Int.sub_zero _]
      exact buckets
    have pruned : Reads (prune 0 s₂) { man := s₂ } [] := by
      rw [prune, unreferenced_loaded passed loading₂]
      exact Reads.pure _
    have countNew : A.header.nNew.toNat = A.newEntries.length := by
      rw [show A.header.nNew = A.nNew from rfl, nNew_eq passed, Int.toNat_natCast]
    have countTried : A.header.nTried.toNat = A.triedEntries.length := by
      rw [show A.header.nTried = A.nTried from rfl, nTried_eq passed, Int.toNat_natCast]
    rw [loadRest, countNew, countTried]
    apply entries.bind
    rw [← List.append_nil ((List.finRange ADDRMAN_NEW_BUCKET_COUNT).flatMap A.bucketBytes)]
    exact buckets'.bind pruned
  · rw [counts₂]
    have ids₁ : s₁.nIdCount = A.fileInfos.length := congrArg Prod.fst counts₁
    show (s₁.nIdCount, s₁.nNew, A.nTried) = _
    rw [ids₁, new₁]

theorem unserialize_reads (nVersion : Int) (drawn randHash : uint256) :
    ∃ s', Reads (({ nKey := drawn } : CAddrMan).unserialize k randHash) { man := s' }
        (A.headerBytes ++ (infosBytes nVersion A.newEntries ++ (infosBytes nVersion A.triedEntries ++
          (List.finRange ADDRMAN_NEW_BUCKET_COUNT).flatMap A.bucketBytes))) ∧
      Loading k A.nKey A.fileTable A.fileInfos (slots ADDRMAN_NEW_BUCKET_COUNT) s' ∧ s'.counts = (A.fileInfos.length, A.nNew, A.nTried) := by
  have nNew := nNew_eq passed
  have nTried := nTried_eq passed
  have header := readHeader_reads (s := A)
    (by rw [nNew]; exact inInt_of_small (newEntries_length passed))
    (by rw [nTried]; exact inInt_of_small ((triedEntries_length passed).trans (by decide)))
  have apart := apart_fileInfos passed
  rw [fileInfos_eq passed] at apart
  have untried : ∀ info ∈ A.newEntries, info.fInTried = false := by
    intro info member
    rw [newEntries_eq passed] at member
    obtain ⟨e, listed, rfl⟩ := List.mem_map.mp member
    simpa using (List.mem_filter.mp listed).2
  obtain ⟨s₁, entries, loading₁, counts₁⟩ := loadNewEntries_reads nVersion A.newEntries
    (fun info member => typed_fileInfos passed typed info (List.mem_append_left _ member)) untried
    (loading_nothing k A.nKey A.fileTable A.nNew A.nTried) (List.pairwise_append.mp apart).1
  obtain ⟨s₂, others, loading₂, counts₂⟩ := loadRest_reads passed typed nVersion loading₁ (congrArg (fun c => c.2.1) counts₁)
  refine ⟨s₂, header.bind ?_, loading₂, counts₂⟩
  rw [List.length_nil, ← List.range_eq_range'] at entries
  rw [loadEntries, header_usable, show A.header.nNew.toNat = A.newEntries.length by
    rw [show A.header.nNew = A.nNew from rfl, nNew, Int.toNat_natCast]]
  apply entries.bind
  rw [if_neg (by rw [show A.header.nNew = A.nNew from rfl, nNew]; omega)]
  exact others

end Whole

end CAddrMan

end SchillingCoin.Net
