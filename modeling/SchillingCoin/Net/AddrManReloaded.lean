import SchillingCoin.Net.AddrManReload
import SchillingCoin.Net.AddrManRuns

/-!
That an address manager which was saved and loaded is the same one with other ids, and passes its check.
-/

namespace SchillingCoin.Net

open Codec DataStream Wire

structure CAddrInfo.SameOnDisk (info info' : CAddrInfo) : Prop where
  address : info'.toCAddress = info.toCAddress
  source : info'.source = info.source
  nLastSuccess : info'.nLastSuccess = info.nLastSuccess
  nAttempts : info'.nAttempts = info.nAttempts

namespace CAddrMan

/-- `s'` is `s` with other ids: the same key, entries and tables. -/
structure Renumbered (renumber : Nat → Nat) (s s' : CAddrMan) : Prop where
  nKey : s'.nKey = s.nKey
  injective : ∀ {n n' info info'}, s.mapInfo.lookup n = some info → s.mapInfo.lookup n' = some info' → renumber n = renumber n' → n = n'
  entry : ∀ {n info}, s.mapInfo.lookup n = some info → ∃ info', s'.mapInfo.lookup (renumber n) = some info' ∧ info.SameOnDisk info'
  onto : ∀ {n' info'}, s'.mapInfo.lookup n' = some info' → ∃ n info, s.mapInfo.lookup n = some info ∧ renumber n = n'
  vvNew : ∀ b i, s'.vvNew b i = (s.vvNew b i).map renumber
  vvTried : ∀ b i, s'.vvTried b i = (s.vvTried b i).map renumber

variable {k : AddrBuckets} {A s : CAddrMan}

section Loaded

variable (passed : A.Passed k) (loading : Loading k A.nKey A.fileTable A.fileInfos (slots ADDRMAN_NEW_BUCKET_COUNT) s)

include loading in
theorem vvNew_loaded (b : NewBucket) (i : BucketPosition) : s.vvNew b i = (A.vvNew b i).map A.fileId := by
  rw [loading.new, if_pos (mem_slots (b, i))]
  rfl

include passed loading in
theorem vvTried_loaded (b : TriedBucket) (i : BucketPosition) : s.vvTried b i = (A.vvTried b i).map A.fileId := by
  apply Option.ext
  intro j
  rw [loading.tried, Option.map_eq_some_iff]
  constructor
  · intro ⟨info, listed, tried, bucket, place⟩
    obtain ⟨n, found, isId⟩ := of_fileInfos listed
    refine ⟨n, ?_, isId⟩
    rw [bucket, place]
    exact passed.slot found tried
  · intro ⟨n, here, isId⟩
    obtain ⟨info, found, tried, bucket, place⟩ := passed.tried here
    refine ⟨info, ?_, tried, bucket.symm, place.symm⟩
    rw [← isId]
    exact fileInfos_fileId found

include passed loading in
theorem renumbered_loaded : Renumbered A.fileId A s := by
  constructor
  · exact loading.key
  · intro n n' info info' found _ same
    exact fileId_inj found same
  · intro n info found
    exact ⟨_, loaded_entry passed loading found, rfl, rfl, rfl, rfl⟩
  · intro j read found
    obtain ⟨n, info, found', isId, _⟩ := of_loaded passed loading found
    exact ⟨n, info, found', isId⟩
  · exact vvNew_loaded loading
  · exact vvTried_loaded passed loading

include loading in
theorem indexed_loaded (ids : s.nIdCount = A.fileInfos.length) : Indexed s.spots s.mapAddr.lookup s.vRandom s.nIdCount := by
  constructor
  · intro j spot here
    obtain ⟨read, found, _⟩ := of_spots here
    obtain ⟨info, listed, _⟩ := Option.map_eq_some_iff.mp ((loading.info j).symm.trans found)
    rw [ids]
    exact (List.getElem?_eq_some_iff.mp listed).1
  · intro j spot here
    obtain ⟨read, found, rfl⟩ := of_spots here
    obtain ⟨info, listed, rfl⟩ := Option.map_eq_some_iff.mp ((loading.info j).symm.trans found)
    show s.vRandom[j]? = some j
    rw [loading.random, List.getElem?_range (List.getElem?_eq_some_iff.mp listed).1]
  · intro pos j here
    rw [loading.random] at here
    obtain ⟨inside, rfl⟩ := List.getElem?_eq_some_iff.mp here
    rw [List.length_range] at inside
    have found := (loading.info pos).trans (by rw [List.getElem?_eq_getElem inside, Option.map_some])
    rw [List.getElem_range]
    exact ⟨_, spots_of found, rfl⟩
  · intro j spot here
    obtain ⟨read, found, rfl⟩ := of_spots here
    obtain ⟨info, listed, rfl⟩ := Option.map_eq_some_iff.mp ((loading.info j).symm.trans found)
    exact (loading.addr _ _).mpr ⟨info, listed, rfl⟩
  · intro addr j named
    obtain ⟨info, listed, rfl⟩ := (loading.addr _ _).mp named
    have found := (loading.info j).trans (by rw [listed, Option.map_some])
    exact ⟨_, spots_of found, rfl⟩

include passed loading

theorem slotted_loaded : Slotted k s.nKey s.seats s.vvTried s.vvNew := by
  constructor
  · intro j seat here tried
    obtain ⟨read, found, rfl⟩ := of_seats here
    obtain ⟨info, listed, rfl⟩ := Option.map_eq_some_iff.mp ((loading.info j).symm.trans found)
    rw [loading.key]
    exact (loading.tried _ _ _).mpr ⟨info, listed, tried, rfl, rfl⟩
  · intro b i j here
    obtain ⟨info, listed, tried, bucket, place⟩ := (loading.tried _ _ _).mp here
    have found := (loading.info j).trans (by rw [listed, Option.map_some])
    rw [loading.key]
    exact ⟨_, seats_of found, tried, bucket, place⟩
  · intro b i j here
    rw [vvNew_loaded loading] at here
    obtain ⟨n, info, found, rfl, untried, place⟩ := of_fileTable passed here
    rw [loading.key]
    exact ⟨_, seats_of (loaded_entry passed loading found), untried, place.symm⟩
  · intro j seat here
    obtain ⟨read, found, rfl⟩ := of_seats here
    obtain ⟨n, info, found', rfl, rfl⟩ := of_loaded passed loading found
    have same : s.vvNew = A.fileTable := by
      funext b i
      exact vvNew_loaded loading b i
    have own : ∀ b i, s.vvNew b i = some (A.fileId n) → i = k.newPlace s.nKey info.toCService b := by
      intro b i there
      rw [same, fileTable_eq_some found'] at there
      obtain ⟨info', found'', _, place⟩ := passed.new there
      obtain rfl := Option.some.inj (found'.symm.trans found'')
      rw [loading.key]
      exact place.symm
    show info.nRefCount = _
    rw [refs_fileTable passed found', ← same, Buckets.countP_held own (nodup_slots _) mem_slots]
    rfl

theorem ranged_loaded : s.Ranged fun _ => False := by
  constructor
  · intro j read found
    obtain ⟨n, info, found', rfl, rfl⟩ := of_loaded passed loading found
    exact ⟨(refs_le passed found' : info.nRefCount ≤ 8), (passed.entry found').success, Int.le_refl 0, (passed.entry found').lastSuccess⟩
  · intro j read found untried
    obtain ⟨n, info, found', rfl, rfl⟩ := of_loaded passed loading found
    exact .inr (Int.lt_of_lt_of_le Int.zero_lt_one ((passed.entry found').used untried).1)

theorem counted_loaded (counts : s.counts = (A.fileInfos.length, A.nNew, A.nTried)) : s.Counted 0 := by
  have sums (weight : Nat → CAddrInfo → Int) (weighs : ∀ j r n info, weight j (readAs j r info) = weight n info) :
      StdMap.sum weight s.mapInfo = (A.mapInfo.entries.map fun e => weight e.1 e.2).sum := by
    have sides : A.fileInfos.map (weight 0) = A.filed.map fun e => weight e.1 e.2 := by
      rw [fileInfos, List.map_map]
      apply List.map_congr_left
      intro e _
      exact (weighs 0 0 0 e.2).symm.trans (weighs 0 0 e.1 e.2)
    rw [StdMap.sum_positions loading.info fun j info => weighs j _ 0 info, sides]
    exact (A.filed_perm.map fun e => weight e.1 e.2).sum_eq
  constructor
  · rw [sums newWeight fun _ _ _ _ => rfl, ← passed.newCount, Int.add_zero]
    exact congrArg (fun c => c.2.1) counts
  · rw [sums triedWeight fun _ _ _ _ => rfl, ← passed.triedCount]
    exact congrArg (fun c => c.2.2) counts
  · rw [sums (fun _ _ => 1) fun _ _ _ _ => rfl, loading.random, List.length_range, fileInfos, List.length_map, A.filed_perm.length_eq]
    simp

theorem settled_loaded (counts : s.counts = (A.fileInfos.length, A.nNew, A.nTried)) : Settled k s :=
  ⟨indexed_loaded loading (congrArg Prod.fst counts), slotted_loaded passed loading, ranged_loaded passed loading,
    counted_loaded passed loading counts⟩

end Loaded

/-- A manager that passes the check is read back whole: nothing is lost, no byte is left, and the ids alone are others. -/
theorem unserialize_serialize (k : AddrBuckets) (A : CAddrMan) (passed : A.check k = .ok ())
    (typed : ∀ n info, A.mapInfo.lookup n = some info → info.Typed) (nVersion : Int) (drawn randHash : uint256) :
    ∃ writes man renumber, A.serialize nVersion = some writes ∧
      ({ nKey := drawn } : CAddrMan).unserialize k randHash writes.bytes = .ok ({ man, nLost := 0, nLostUnk := 0 }, []) ∧
      man.check k = .ok () ∧ A.Renumbered renumber man := by
  have passed := passed_of_check passed
  obtain ⟨writes, serialized, bytes⟩ := serialize_passed passed nVersion
  obtain ⟨man, reads, loading, counts⟩ := unserialize_reads passed typed nVersion drawn randHash
  have whole := reads []
  rw [List.append_nil, ← bytes] at whole
  have settled := settled_loaded passed loading counts
  exact ⟨writes, man, A.fileId, serialized, whole, check_ok settled (loading.key ▸ passed.key), renumbered_loaded passed loading⟩

def bothTables : List AddrOp :=
  [.add ⟨⟨⟨1⟩, 9000⟩, 1, 1000⟩ ⟨7⟩ 0 ⟨1000, 1000, 0⟩, .good ⟨⟨1⟩, 9000⟩ 1001 0, .add ⟨⟨⟨2⟩, 9000⟩, 1, 1000⟩ ⟨7⟩ 0 ⟨1000, 1000, 0⟩]

def newInfo : CAddrInfo := { ip := 2, port := 9000, nServices := 1, nTime := 1000, source := ⟨7⟩, nRefCount := 1, nRandomPos := 1 }

def triedInfo : CAddrInfo :=
  { ip := 1, port := 9000, nServices := 1, nTime := 1000, source := ⟨7⟩, nLastTry := 1001, nLastSuccess := 1001, fInTried := true, nRandomPos := 0 }

theorem bothTables_infos :
    (Run.run (step oneBucket) { nKey := 1 } bothTables).map (fun r => r.2.mapInfo.entries.map Sigma.snd) = some [newInfo, triedInfo] := by
  decide +kernel

theorem both_tables_reloaded : ∃ answers A, Run.run (step oneBucket) { nKey := 1 } bothTables = some (answers, A) ∧
    A.mapInfo.entries.map Sigma.snd = [newInfo, triedInfo] ∧
    ∃ writes man renumber, A.serialize 70915 = some writes ∧
      ({ nKey := 2 } : CAddrMan).unserialize oneBucket 3 writes.bytes = .ok ({ man, nLost := 0, nLostUnk := 0 }, []) ∧
      man.check oneBucket = .ok () ∧ A.Renumbered renumber man := by
  have allowed : ∀ op ∈ bothTables, op.Allowed :=
    List.forall_mem_cons.mpr ⟨trivial, List.forall_mem_cons.mpr ⟨(by decide : (0 : Int) < 1001), List.forall_mem_singleton.mpr trivial⟩⟩
  have one (s : CAddrMan) (op : AddrOp) (inv : Settled oneBucket s ∧ s.nKey = 1) (allowed : op.Allowed) :
      ∃ answer s', s.step oneBucket op = some (answer, s') ∧ op.Answered answer ∧ Settled oneBucket s' ∧ s'.nKey = 1 := by
    obtain ⟨answer, s', stepped, answered, settled, key⟩ := step_settled inv.1 op allowed
    exact ⟨answer, s', stepped, answered, settled, key.trans inv.2⟩
  obtain ⟨answers, A, ran, _, settled, key⟩ := Run.run_answers _ _ _ one bothTables ⟨settled_empty oneBucket 1, rfl⟩ allowed
  have computed := bothTables_infos
  rw [ran] at computed
  have infos : A.mapInfo.entries.map Sigma.snd = [newInfo, triedInfo] := Option.some.inj computed
  refine ⟨answers, A, ran, infos, unserialize_serialize oneBucket A (check_ok settled (by rw [key]; decide)) ?_ 70915 2 3⟩
  intro n info found
  have member := List.mem_map_of_mem (f := Sigma.snd) (StdMap.mem_entries_iff.mpr found)
  rw [infos] at member
  rcases List.mem_pair.mp member with rfl | rfl
  · exact ⟨by decide, by decide, by decide, ⟨by decide, by decide⟩, ⟨by decide, by decide⟩⟩
  · exact ⟨by decide, by decide, by decide, ⟨by decide, by decide⟩, ⟨by decide, by decide⟩⟩

end CAddrMan

end SchillingCoin.Net
