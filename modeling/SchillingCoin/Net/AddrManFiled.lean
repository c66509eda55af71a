import SchillingCoin.Net.AddrManChecked
import SchillingCoin.Net.AddrManFile

/-!
What `Serialize` writes of an address manager that passes its check: the new entries, the tried ones, and the new table with the ids that
the entries get when they are read.
-/

namespace SchillingCoin.Net

open Codec DataStream Wire

namespace CAddrMan

variable {k : AddrBuckets} {s : CAddrMan} {n : Nat} {info : CAddrInfo}

def untriedEntries (s : CAddrMan) : List (Sigma fun _ : Nat => CAddrInfo) := s.inOrder.filter fun e => !e.2.fInTried

def filed (s : CAddrMan) : List (Sigma fun _ : Nat => CAddrInfo) := s.untriedEntries ++ s.inOrder.filter fun e => e.2.fInTried

def fileInfos (s : CAddrMan) : List CAddrInfo := s.filed.map Sigma.snd

def fileId (s : CAddrMan) (n : Nat) : Nat := (s.filed.map Sigma.fst).idxOf n

def fileTable (s : CAddrMan) : Table ADDRMAN_NEW_BUCKET_COUNT := fun b i => (s.vvNew b i).map s.fileId

theorem inOrder_perm (s : CAddrMan) : s.inOrder.Perm s.mapInfo.entries := List.perm_insertionSort _ _

theorem filed_perm (s : CAddrMan) : s.filed.Perm s.mapInfo.entries := by
  have parted := List.filter_append_perm (fun e : Sigma fun _ : Nat => CAddrInfo => !e.2.fInTried) s.inOrder
  simp only [Bool.not_not] at parted
  exact parted.trans s.inOrder_perm

theorem mem_filed : ⟨n, info⟩ ∈ s.filed ↔ s.mapInfo.lookup n = some info := by
  rw [s.filed_perm.mem_iff]
  exact StdMap.mem_entries_iff

theorem nodup_inOrder (s : CAddrMan) : (s.inOrder.map Sigma.fst).Nodup := (s.inOrder_perm.map Sigma.fst).nodup_iff.mpr s.mapInfo.nodupKeys

theorem nodup_filed (s : CAddrMan) : (s.filed.map Sigma.fst).Nodup := (s.filed_perm.map Sigma.fst).nodup_iff.mpr s.mapInfo.nodupKeys

theorem mem_filed_key (found : s.mapInfo.lookup n = some info) : n ∈ s.filed.map Sigma.fst := List.mem_map.mpr ⟨_, mem_filed.mpr found, rfl⟩

theorem fileInfos_fileId (found : s.mapInfo.lookup n = some info) : s.fileInfos[s.fileId n]? = some info := by
  have inside : s.fileId n < (s.filed.map Sigma.fst).length := List.idxOf_lt_length_of_mem (mem_filed_key found)
  have key : (s.filed.map Sigma.fst)[s.fileId n]? = some n := by
    rw [List.getElem?_eq_getElem inside]
    exact congrArg some (List.getElem_idxOf inside)
  rw [List.getElem?_map] at key
  obtain ⟨⟨n', info'⟩, there, rfl⟩ := Option.map_eq_some_iff.mp key
  have found' := mem_filed.mp (List.mem_of_getElem? there)
  obtain rfl := Option.some.inj (found.symm.trans found')
  rw [fileInfos, List.getElem?_map, there, Option.map_some]

theorem of_fileInfos (here : s.fileInfos[j]? = some info) : ∃ n, s.mapInfo.lookup n = some info ∧ s.fileId n = j := by
  rw [fileInfos, List.getElem?_map] at here
  obtain ⟨⟨n, info'⟩, there, rfl⟩ := Option.map_eq_some_iff.mp here
  refine ⟨n, mem_filed.mp (List.mem_of_getElem? there), ?_⟩
  obtain ⟨inside, there⟩ := List.getElem?_eq_some_iff.mp there
  have inside' : j < (s.filed.map Sigma.fst).length := by rwa [List.length_map]
  have key : (s.filed.map Sigma.fst)[j] = n := by rw [List.getElem_map, there]
  rw [fileId, ← key]
  exact s.nodup_filed.idxOf_getElem j inside'

theorem fileId_inj (found : s.mapInfo.lookup n = some info) (same : s.fileId n = s.fileId n') : n = n' :=
  (List.idxOf_inj (mem_filed_key found)).mp same

theorem fileTable_eq_some (found : s.mapInfo.lookup n = some info) (b : NewBucket) (i : BucketPosition) :
    s.fileTable b i = some (s.fileId n) ↔ s.vvNew b i = some n := by
  rw [fileTable, Option.map_eq_some_iff]
  constructor
  · intro ⟨n', here, same⟩
    rw [fileId_inj found same.symm]
    exact here
  · intro here
    exact ⟨n, here, rfl⟩

theorem of_fileTable (passed : s.Passed k) (here : s.fileTable b i = some j) :
    ∃ n info, s.mapInfo.lookup n = some info ∧ s.fileId n = j ∧ info.fInTried = false ∧ s.newPos k info b = i := by
  obtain ⟨n, there, rfl⟩ := Option.map_eq_some_iff.mp here
  obtain ⟨info, found, untried, place⟩ := passed.new there
  exact ⟨n, info, found, rfl, untried, place⟩

theorem countP_fileTable (found : s.mapInfo.lookup n = some info) (slots : List (NewBucket × BucketPosition)) :
    slots.countP (Buckets.held s.fileTable (s.fileId n)) = slots.countP (Buckets.held s.vvNew n) := by
  apply List.countP_congr
  intro slot _
  simp only [Buckets.held, decide_eq_true_eq, fileTable_eq_some found]

theorem countP_tried (passed : s.Passed k) (found : s.mapInfo.lookup n = some info) (tried : info.fInTried = true) :
    (slots ADDRMAN_NEW_BUCKET_COUNT).countP (Buckets.held s.fileTable (s.fileId n)) = 0 := by
  rw [countP_fileTable found, List.countP_eq_zero]
  intro slot _ held
  obtain ⟨info', found', untried, _⟩ := passed.new (of_decide_eq_true held)
  obtain rfl := Option.some.inj (found.symm.trans found')
  rw [tried] at untried
  cases untried

theorem refs_fileTable (passed : s.Passed k) (found : s.mapInfo.lookup n = some info) :
    info.nRefCount = (slots ADDRMAN_NEW_BUCKET_COUNT).countP (Buckets.held s.fileTable (s.fileId n)) := by
  cases tried : info.fInTried with
  | true => rw [countP_tried passed found tried, (passed.entry found).unused tried, Nat.cast_zero]
  | false => rw [countP_fileTable found, passed.refs found tried]

theorem untried_refs (passed : s.Passed k) (found : s.mapInfo.lookup n = some info) : info.nRefCount != 0 ↔ info.fInTried = false := by
  rw [bne_iff_ne]
  cases tried : info.fInTried with
  | true => simp [(passed.entry found).unused tried]
  | false =>
    have used := (passed.entry found).used tried
    constructor
    · intro _
      rfl
    · intro _
      omega

theorem filter_referred (passed : s.Passed k) : s.inOrder.filter (fun e => e.2.nRefCount != 0) = s.untriedEntries := by
  apply List.filter_congr
  intro e member
  have found := StdMap.mem_entries_iff.mp (s.inOrder_perm.mem_iff.mp member)
  rw [Bool.eq_iff_iff, untried_refs passed found, Bool.not_eq_true']

theorem newEntries_eq (passed : s.Passed k) : s.newEntries = s.untriedEntries.map Sigma.snd := by rw [newEntries, filter_referred passed]

theorem fileInfos_eq (passed : s.Passed k) : s.fileInfos = s.newEntries ++ s.triedEntries := by
  rw [newEntries_eq passed, fileInfos, filed, List.map_append, triedEntries]

theorem sum_inOrder (weight : Nat → CAddrInfo → Int) :
    (s.mapInfo.entries.map fun e => weight e.1 e.2).sum = (s.inOrder.map fun e => weight e.1 e.2).sum :=
  ((s.inOrder_perm.map fun e => weight e.1 e.2).sum_eq).symm

theorem sum_filter (test : CAddrInfo → Bool) (entries : List (Sigma fun _ : Nat => CAddrInfo)) :
    (entries.map fun e => if test e.2 then (1 : Int) else 0).sum = (entries.filter fun e => test e.2).length := by
  induction entries with
  | nil => rfl
  | cons e entries ih =>
    rw [List.map_cons, List.sum_cons, ih, List.filter_cons]
    split
    · rw [List.length_cons]
      omega
    · omega

theorem nNew_eq (passed : s.Passed k) : s.nNew = s.newEntries.length := by
  have weights : ∀ e : Sigma fun _ : Nat => CAddrInfo, newWeight e.1 e.2 = if !e.2.fInTried then 1 else 0 := by
    intro e
    unfold newWeight
    cases e.2.fInTried <;> rfl
  rw [passed.newCount, sum_inOrder]
  simp only [weights]
  rw [sum_filter fun info => !info.fInTried, newEntries_eq passed, List.length_map]
  rfl

theorem nTried_eq (passed : s.Passed k) : s.nTried = s.triedEntries.length := by
  rw [passed.triedCount, sum_inOrder]
  unfold triedWeight
  rw [sum_filter fun info => info.fInTried, triedEntries, List.length_map]

theorem length_slots (count : Nat) : (slots count).length = count * ADDRMAN_BUCKET_SIZE := by
  rw [slots]
  exact (List.length_product _ _).trans (by rw [List.length_finRange, List.length_finRange])

theorem length_placed (table : Table count) {ids : List Nat} (distinct : ids.Nodup)
    (placed : ∀ n ∈ ids, ∃ b i, table b i = some n) : ids.length ≤ count * ADDRMAN_BUCKET_SIZE := by
  have within : ids ⊆ (slots count).filterMap fun slot => table slot.1 slot.2 := by
    intro n member
    obtain ⟨b, i, here⟩ := placed n member
    exact List.mem_filterMap.mpr ⟨(b, i), mem_slots (b, i), here⟩
  rw [← length_slots]
  exact (List.subperm_of_subset distinct within).length_le.trans (List.length_filterMap_le _ _)

theorem newEntries_length (passed : s.Passed k) : s.newEntries.length ≤ ADDRMAN_NEW_BUCKET_COUNT * ADDRMAN_BUCKET_SIZE := by
  have distinct : (s.untriedEntries.map Sigma.fst).Nodup := s.nodup_inOrder.sublist (List.filter_sublist.map Sigma.fst)
  rw [newEntries_eq passed, List.length_map, ← List.length_map Sigma.fst]
  apply length_placed s.vvNew distinct
  intro n member
  obtain ⟨⟨_, info⟩, listed, rfl⟩ := List.mem_map.mp member
  obtain ⟨ordered, untried⟩ := List.mem_filter.mp listed
  have untried : info.fInTried = false := by simpa using untried
  have found := StdMap.mem_entries_iff.mp (s.inOrder_perm.mem_iff.mp ordered)
  have used := (passed.entry found).used untried
  rw [passed.refs found untried] at used
  have positive : 0 < (slots ADDRMAN_NEW_BUCKET_COUNT).countP (Buckets.held s.vvNew _) := Int.natCast_pos.mp used.1
  obtain ⟨slot, _, held⟩ := List.countP_pos_iff.mp positive
  exact ⟨slot.1, slot.2, of_decide_eq_true held⟩

theorem triedEntries_length (passed : s.Passed k) : s.triedEntries.length ≤ ADDRMAN_TRIED_BUCKET_COUNT * ADDRMAN_BUCKET_SIZE := by
  have distinct : ((s.inOrder.filter fun e => e.2.fInTried).map Sigma.fst).Nodup := s.nodup_inOrder.sublist (List.filter_sublist.map Sigma.fst)
  rw [triedEntries, List.length_map, ← List.length_map Sigma.fst]
  apply length_placed s.vvTried distinct
  intro n member
  obtain ⟨⟨_, info⟩, listed, rfl⟩ := List.mem_map.mp member
  obtain ⟨ordered, tried⟩ := List.mem_filter.mp listed
  have found := StdMap.mem_entries_iff.mp (s.inOrder_perm.mem_iff.mp ordered)
  exact ⟨_, _, passed.slot found tried⟩

theorem inInt_of_small {x : Nat} (small : x ≤ 65536) : InInt 4 x := by
  unfold InInt
  omega

theorem serializeEntries_eq (nVersion count : Int) (infos : List CAddrInfo) (nIds : Nat) (fits : (nIds + infos.length : Int) ≤ count) :
    serializeEntries nVersion count nIds infos = some (infos.flatMap fun info => info.serialize nVersion) := by
  induction infos generalizing nIds with
  | nil => rfl
  | cons info infos ih =>
    rw [List.length_cons] at fits
    rw [serializeEntries, if_neg (by omega), ih (nIds + 1) (by omega), List.flatMap_cons]
    rfl

theorem lookup_mapUnkIds_absent (absent : n ∉ entries.map Sigma.fst) (j : Nat) (ids : StdMap Nat Nat) :
    (mapUnkIds j entries ids).lookup n = ids.lookup n := by
  induction entries generalizing j ids with
  | nil => rfl
  | cons e entries ih =>
    rw [List.map_cons, List.mem_cons, not_or] at absent
    rw [mapUnkIds, ih absent.2, StdMap.lookup_insert_ite, if_neg absent.1]

theorem lookup_mapUnkIds (distinct : (entries.map Sigma.fst).Nodup)
    (listed : n ∈ (entries.filter fun e => e.2.nRefCount != 0).map Sigma.fst) (j : Nat) (ids : StdMap Nat Nat) :
    (mapUnkIds j entries ids).lookup n = some (j + ((entries.filter fun e => e.2.nRefCount != 0).map Sigma.fst).idxOf n) := by
  induction entries generalizing j ids with
  | nil => cases listed
  | cons e entries ih =>
    rw [List.map_cons, List.nodup_cons] at distinct
    rw [mapUnkIds]
    by_cases referred : e.2.nRefCount != 0
    · rw [List.filter_cons_of_pos (p := fun e : Sigma fun _ : Nat => CAddrInfo => e.2.nRefCount != 0) referred, List.map_cons] at listed ⊢
      rw [if_pos (by simpa using referred)]
      by_cases here : n = e.1
      · rw [here, lookup_mapUnkIds_absent distinct.1, StdMap.lookup_insert_ite, if_pos rfl, List.idxOf_cons_self]
        rfl
      · rw [ih distinct.2 ((List.mem_cons.mp listed).resolve_left here), List.idxOf_cons_ne _ (Ne.symm here)]
        exact congrArg some (by omega)
    · rw [List.filter_cons_of_neg (p := fun e : Sigma fun _ : Nat => CAddrInfo => e.2.nRefCount != 0) referred] at listed ⊢
      rw [if_neg (by simpa using referred), ih distinct.2 listed]

theorem mem_untried (found : s.mapInfo.lookup n = some info) (untried : info.fInTried = false) : n ∈ s.untriedEntries.map Sigma.fst := by
  have ordered : ⟨n, info⟩ ∈ s.inOrder := s.inOrder_perm.mem_iff.mpr (StdMap.mem_entries_iff.mpr found)
  exact List.mem_map.mpr ⟨_, List.mem_filter.mpr ⟨ordered, by rw [untried]; rfl⟩, rfl⟩

theorem fileId_untried (found : s.mapInfo.lookup n = some info) (untried : info.fInTried = false) :
    s.fileId n = (s.untriedEntries.map Sigma.fst).idxOf n := by
  rw [fileId, filed, List.map_append, List.idxOf_append_of_mem (mem_untried found untried)]

theorem fileId_lt (passed : s.Passed k) (found : s.mapInfo.lookup n = some info) (untried : info.fInTried = false) :
    (s.fileId n : Int) < s.nNew := by
  have inside := List.idxOf_lt_length_of_mem (mem_untried found untried)
  rw [List.length_map] at inside
  rw [fileId_untried found untried, nNew_eq passed, newEntries_eq passed, List.length_map]
  exact Int.ofNat_lt.mpr inside

theorem mapUnkIds_eq (passed : s.Passed k) (found : s.mapInfo.lookup n = some info) (untried : info.fInTried = false) :
    (mapUnkIds 0 s.inOrder ∅).lookup n = some (s.fileId n) := by
  have listed := mem_untried found untried
  rw [lookup_mapUnkIds s.nodup_inOrder (by rwa [filter_referred passed]), filter_referred passed, Nat.zero_add, fileId_untried found untried]

def fileBucket (s : CAddrMan) (b : NewBucket) : List Nat := (List.finRange ADDRMAN_BUCKET_SIZE).filterMap (s.fileTable b)

theorem fileBucket_eq (s : CAddrMan) (b : NewBucket) : s.fileBucket b = (s.bucketIds b).map s.fileId := by
  rw [bucketIds, List.map_filterMap]
  rfl

def indexBytes (ids : List Nat) : List UInt8 := ids.flatMap fun id : Nat => intBytes 4 id

theorem serializeBucket_bytes (passed : s.Passed k) (b : NewBucket) :
    (serializeBucket (mapUnkIds 0 s.inOrder ∅) (s.bucketIds b)).bytes = intBytes 4 (s.fileBucket b).length ++ indexBytes (s.fileBucket b) := by
  have numbered : ∀ n ∈ s.bucketIds b, ((mapUnkIds 0 s.inOrder ∅).lookup n).getD 0 = s.fileId n := by
    intro n member
    obtain ⟨i, _, here⟩ := List.mem_filterMap.mp member
    obtain ⟨info, found, untried, _⟩ := passed.new here
    rw [mapUnkIds_eq passed found untried]
    rfl
  rw [serializeBucket, Writes.bytes_cons, fileBucket_eq, List.length_map, indexBytes, List.flatMap_map, Writes.bytes, ← List.flatMap_def]
  apply congrArg (intBytes 4 (s.bucketIds b).length ++ ·)
  apply List.flatMap_congr
  intro n member
  rw [numbered n member]

def infosBytes (nVersion : Int) (infos : List CAddrInfo) : List UInt8 := infos.flatMap fun info => (info.serialize nVersion).bytes

def bucketBytes (s : CAddrMan) (b : NewBucket) : List UInt8 := intBytes 4 (s.fileBucket b).length ++ indexBytes (s.fileBucket b)

theorem serialize_passed (passed : s.Passed k) (nVersion : Int) :
    ∃ writes, s.serialize nVersion = some writes ∧
      writes.bytes = s.headerBytes ++ (infosBytes nVersion s.newEntries ++ (infosBytes nVersion s.triedEntries ++
        (List.finRange ADDRMAN_NEW_BUCKET_COUNT).flatMap s.bucketBytes)) := by
  have new := serializeEntries_eq nVersion s.nNew s.newEntries 0 (by rw [nNew_eq passed]; omega)
  have tried := serializeEntries_eq nVersion s.nTried s.triedEntries 0 (by rw [nTried_eq passed]; omega)
  have buckets : ∀ b, (serializeBucket (mapUnkIds 0 s.inOrder ∅) (s.bucketIds b)).bytes = s.bucketBytes b := serializeBucket_bytes passed
  refine ⟨_, by rw [serialize, new, tried]; rfl, ?_⟩
  simp only [Writes.bytes_append, Writes.bytes_flatMap, buckets, Writes.bytes_cons, Writes.bytes_nil, List.append_nil, headerBytes, infosBytes,
    List.append_assoc]

end CAddrMan

end SchillingCoin.Net
