import SchillingCoin.Net.AddrManCheck

/-!
What the consistency check of the address manager says of a manager that passes it.
-/

namespace SchillingCoin.Net

namespace CAddrMan

variable {k : AddrBuckets} {s : CAddrMan}

structure EntryPassed (s : CAddrMan) (n : Nat) (info : CAddrInfo) : Prop where
  success : info.fInTried = true → info.nLastSuccess ≠ 0
  unused : info.fInTried = true → info.nRefCount = 0
  used : info.fInTried = false → 1 ≤ info.nRefCount ∧ info.nRefCount ≤ ADDRMAN_NEW_BUCKETS_PER_ADDRESS
  addr : (s.mapAddr.lookup info.toCNetAddr).getD 0 = n
  random : s.vRandom[info.nRandomPos]? = some n
  lastSuccess : 0 ≤ info.nLastSuccess

/-- A manager that passes the check: every entry has the places it counts, and every place the entry it names. -/
structure Passed (k : AddrBuckets) (s : CAddrMan) : Prop where
  entry : ∀ {n info}, s.mapInfo.lookup n = some info → s.EntryPassed n info
  slot : ∀ {n info}, s.mapInfo.lookup n = some info → info.fInTried = true → s.vvTried (s.triedBucket k info) (s.triedPos k info) = some n
  tried : ∀ {b i n}, s.vvTried b i = some n → ∃ info, s.mapInfo.lookup n = some info ∧ info.fInTried = true ∧
    s.triedBucket k info = b ∧ s.triedPos k info = i
  new : ∀ {b i n}, s.vvNew b i = some n → ∃ info, s.mapInfo.lookup n = some info ∧ info.fInTried = false ∧ s.newPos k info b = i
  refs : ∀ {n info}, s.mapInfo.lookup n = some info → info.fInTried = false →
    info.nRefCount = (slots ADDRMAN_NEW_BUCKET_COUNT).countP (Buckets.held s.vvNew n)
  newCount : s.nNew = (s.mapInfo.entries.map fun e => newWeight e.1 e.2).sum
  triedCount : s.nTried = (s.mapInfo.entries.map fun e => triedWeight e.1 e.2).sum
  key : s.nKey ≠ 0

theorem checkTable_passed (passed : checkTable info = .ok ()) :
    (info.fInTried = true → info.nLastSuccess ≠ 0 ∧ info.nRefCount = 0) ∧
      (info.fInTried = false → 1 ≤ info.nRefCount ∧ info.nRefCount ≤ ADDRMAN_NEW_BUCKETS_PER_ADDRESS) := by
  unfold checkTable at passed
  cases tried : info.fInTried with
  | true =>
    rw [tried, if_pos rfl] at passed
    obtain ⟨success, passed⟩ := Checked.after_refuse passed
    have unused := Checked.refuse_ok.mp passed
    exact ⟨fun _ => ⟨beq_eq_false_iff_ne.mp success, by simpa using unused⟩, nofun⟩
  | false =>
    rw [tried, if_neg (by decide)] at passed
    obtain ⟨range, passed⟩ := Checked.after_refuse passed
    have range := of_decide_eq_false range
    have some_ := beq_eq_false_iff_ne.mp (Checked.refuse_ok.mp passed)
    exact ⟨nofun, fun _ => by omega⟩

theorem checkEntry_passed (passed : s.checkEntry sets n info = .ok out) : s.EntryPassed n info ∧ out = sets.gather n info := by
  obtain ⟨_, table, passed⟩ := Checked.bind_ok passed
  obtain ⟨addr, passed⟩ := Checked.after_refuse passed
  obtain ⟨random, passed⟩ := Checked.after_refuse passed
  obtain ⟨_, passed⟩ := Checked.after_refuse passed
  obtain ⟨lastSuccess, passed⟩ := Checked.after_refuse passed
  have lastSuccess := of_decide_eq_false lastSuccess
  obtain ⟨tried, untried⟩ := checkTable_passed table
  refine ⟨⟨fun isTried => (tried isTried).1, fun isTried => (tried isTried).2, untried, ?_, ?_, by omega⟩, (Except.ok.inj passed).symm⟩
  · simpa using addr
  · simpa using random

theorem checkEntries_passed {entries : List (Sigma fun _ : Nat => CAddrInfo)}
    (passed : entries.foldlM (fun sets e => s.checkEntry sets e.1 e.2) sets = .ok out) :
    (∀ e ∈ entries, s.EntryPassed e.1 e.2) ∧ out = sets.gatherAll entries := by
  induction entries generalizing sets with
  | nil => exact ⟨nofun, (Except.ok.inj passed).symm⟩
  | cons e entries ih =>
    rw [List.foldlM_cons] at passed
    obtain ⟨mid, first, passed⟩ := Checked.bind_ok passed
    obtain ⟨here, rfl⟩ := checkEntry_passed first
    obtain ⟨rest, rfl⟩ := ih passed
    refine ⟨?_, rfl⟩
    intro e' member
    rcases List.mem_cons.mp member with rfl | member
    · exact here
    · exact rest e' member

theorem checkTriedSlot_passed (passed : s.checkTriedSlot k setTried slot = .ok out) (here : s.vvTried slot.1 slot.2 = some n) :
    n ∈ setTried ∧ out = setTried.erase n ∧
      ∃ info, s.mapInfo.lookup n = some info ∧ s.triedBucket k info = slot.1 ∧ s.triedPos k info = slot.2 := by
  rw [checkTriedSlot, here] at passed
  obtain ⟨listed, passed⟩ := Checked.after_refuse passed
  obtain ⟨bucket, passed⟩ := Checked.after_refuse passed
  obtain ⟨place, passed⟩ := Checked.after_refuse passed
  have bucket : (s.mapInfo.lookup n).map (s.triedBucket k) = some slot.1 := by simpa using bucket
  obtain ⟨info, found, isBucket⟩ := Option.map_eq_some_iff.mp bucket
  rw [found] at place
  have isPlace : k.getBucketPosition s.nKey false slot.1 info.toCService = slot.2 := by simpa using place
  refine ⟨by simpa using listed, (Except.ok.inj passed).symm, info, found, isBucket, ?_⟩
  rw [← isPlace, ← isBucket]
  rfl

theorem checkTriedSlots_passed {slots : List (TriedBucket × BucketPosition)}
    (passed : slots.foldlM (s.checkTriedSlot k) setTried = .ok out) :
    (∀ slot ∈ slots, ∀ n, s.vvTried slot.1 slot.2 = some n → n ∈ setTried ∧
      ∃ info, s.mapInfo.lookup n = some info ∧ s.triedBucket k info = slot.1 ∧ s.triedPos k info = slot.2) ∧
      ∀ n ∈ setTried, n ∉ out → ∃ info, s.mapInfo.lookup n = some info ∧ s.vvTried (s.triedBucket k info) (s.triedPos k info) = some n := by
  induction slots generalizing setTried with
  | nil =>
    obtain rfl := Except.ok.inj passed
    exact ⟨nofun, fun n member gone => absurd member gone⟩
  | cons slot slots ih =>
    rw [List.foldlM_cons] at passed
    obtain ⟨mid, first, passed⟩ := Checked.bind_ok passed
    obtain ⟨listed, erased⟩ := ih passed
    cases here : s.vvTried slot.1 slot.2 with
    | none =>
      rw [checkTriedSlot, here] at first
      obtain rfl := Except.ok.inj first
      refine ⟨?_, erased⟩
      intro slot' member n there
      rcases List.mem_cons.mp member with rfl | member
      · rw [here] at there
        cases there
      · exact listed slot' member n there
    | some nId =>
      obtain ⟨wasListed, rfl, info, found, bucket, place⟩ := checkTriedSlot_passed first here
      constructor
      · intro slot' member n there
        rcases List.mem_cons.mp member with rfl | member
        · rw [here] at there
          obtain rfl := Option.some.inj there
          exact ⟨wasListed, info, found, bucket, place⟩
        · obtain ⟨left, placed⟩ := listed slot' member n there
          exact ⟨Finset.mem_of_mem_erase left, placed⟩
      · intro n member gone
        by_cases same : n = nId
        · subst same
          exact ⟨info, found, by rw [bucket, place, here]⟩
        · exact erased n (Finset.mem_erase.mpr ⟨same, member⟩) gone

theorem checkNewSlot_passed (passed : s.checkNewSlot k mapNew slot = .ok out) (here : s.vvNew slot.1 slot.2 = some n) :
    (∃ left, mapNew.lookup n = some left) ∧ out = countDown mapNew n ∧
      ∃ info, s.mapInfo.lookup n = some info ∧ s.newPos k info slot.1 = slot.2 := by
  rw [checkNewSlot, here] at passed
  obtain ⟨listed, passed⟩ := Checked.after_refuse passed
  obtain ⟨place, passed⟩ := Checked.after_refuse passed
  have place : (s.mapInfo.lookup n).map (fun info => s.newPos k info slot.1) = some slot.2 := by simpa using place
  obtain ⟨info, found, isPlace⟩ := Option.map_eq_some_iff.mp place
  exact ⟨Option.ne_none_iff_exists'.mp (Option.isNone_eq_false_iff.mp listed |> Option.isSome_iff_ne_none.mp),
    (Except.ok.inj passed).symm, info, found, isPlace⟩

theorem lookup_countDown (mapNew : StdMap Nat Int) (nId n : Nat) :
    ((countDown mapNew nId).lookup n).getD 0 = (mapNew.lookup n).getD 0 - if n = nId then 1 else 0 := by
  unfold countDown
  dsimp only
  by_cases same : n = nId
  · subst same
    rw [if_pos rfl]
    split
    · next gone => rw [StdMap.lookup_erase_ite, if_pos rfl, gone]; rfl
    · rw [StdMap.lookup_insert_ite, if_pos rfl]; rfl
  · rw [if_neg same, Int.sub_zero]
    split
    · rw [StdMap.lookup_erase_ite, if_neg same]
    · rw [StdMap.lookup_insert_ite, if_neg same]

theorem of_lookup_countDown (known : ∃ left, mapNew.lookup nId = some left)
    (found : (countDown mapNew nId).lookup n = some left) : ∃ left, mapNew.lookup n = some left := by
  by_cases same : n = nId
  · rw [same]
    exact known
  · have kept : (countDown mapNew nId).lookup n = mapNew.lookup n := by
      unfold countDown
      dsimp only
      split
      · rw [StdMap.lookup_erase_ite, if_neg same]
      · rw [StdMap.lookup_insert_ite, if_neg same]
    exact ⟨left, kept.symm.trans found⟩

theorem checkNewSlots_passed {slots : List (NewBucket × BucketPosition)}
    (passed : slots.foldlM (s.checkNewSlot k) mapNew = .ok out) :
    (∀ slot ∈ slots, ∀ n, s.vvNew slot.1 slot.2 = some n → (∃ left, mapNew.lookup n = some left) ∧
      ∃ info, s.mapInfo.lookup n = some info ∧ s.newPos k info slot.1 = slot.2) ∧
      ∀ n, (mapNew.lookup n).getD 0 = slots.countP (Buckets.held s.vvNew n) + (out.lookup n).getD 0 := by
  induction slots generalizing mapNew with
  | nil =>
    obtain rfl := Except.ok.inj passed
    exact ⟨nofun, fun n => by rw [List.countP_nil]; omega⟩
  | cons slot slots ih =>
    rw [List.foldlM_cons] at passed
    obtain ⟨mid, first, passed⟩ := Checked.bind_ok passed
    obtain ⟨places, counted⟩ := ih passed
    cases here : s.vvNew slot.1 slot.2 with
    | none =>
      rw [checkNewSlot, here] at first
      obtain rfl := Except.ok.inj first
      constructor
      · intro slot' member n there
        rcases List.mem_cons.mp member with rfl | member
        · rw [here] at there
          cases there
        · exact places slot' member n there
      · intro n
        rw [counted, List.countP_cons_of_neg (by simp [Buckets.held, here])]
    | some nId =>
      obtain ⟨known, rfl, info, found, place⟩ := checkNewSlot_passed first here
      constructor
      · intro slot' member n there
        rcases List.mem_cons.mp member with rfl | member
        · rw [here] at there
          obtain rfl := Option.some.inj there
          exact ⟨known, info, found, place⟩
        · obtain ⟨⟨left, listed⟩, rest⟩ := places slot' member n there
          exact ⟨of_lookup_countDown known listed, rest⟩
      · intro n
        have after := counted n
        rw [lookup_countDown] at after
        by_cases same : n = nId
        · rw [List.countP_cons_of_pos (by simp [Buckets.held, here, same])]
          rw [if_pos same] at after
          omega
        · rw [List.countP_cons_of_neg (by simpa [Buckets.held, here] using Ne.symm same)]
          rw [if_neg same] at after
          omega

theorem passed_of_check (passed : s.check k = .ok ()) : s.Passed k := by
  obtain ⟨_, passed⟩ := Checked.after_refuse passed
  obtain ⟨sets, gathered, passed⟩ := Checked.bind_ok passed
  obtain ⟨entries, rfl⟩ := checkEntries_passed gathered
  obtain ⟨sizedTried, passed⟩ := Checked.after_refuse passed
  obtain ⟨sizedNew, passed⟩ := Checked.after_refuse passed
  obtain ⟨setTried, triedSlots, passed⟩ := Checked.bind_ok passed
  obtain ⟨mapNew, newSlots, passed⟩ := Checked.bind_ok passed
  obtain ⟨noTried, passed⟩ := Checked.after_refuse passed
  obtain ⟨noNew, passed⟩ := Checked.after_refuse passed
  obtain ⟨listedTried, slotted⟩ := checkTriedSlots_passed triedSlots
  obtain ⟨listedNew, counted⟩ := checkNewSlots_passed newSlots
  have noTried : setTried = ∅ := Finset.card_eq_zero.mp (by simpa using noTried)
  have noNew : ∀ n, mapNew.lookup n = none := by
    intro n
    have empty : mapNew.entries = [] := by simpa using noNew
    simp [AList.lookup, empty]
  have entryOf : ∀ {n info}, s.mapInfo.lookup n = some info → ⟨n, info⟩ ∈ s.mapInfo.entries := StdMap.mem_entries_iff.mpr
  have fresh := fresh_entries s
  constructor
  · intro n info found
    exact entries ⟨n, info⟩ (entryOf found)
  · intro n info found tried
    have member : n ∈ (CheckSets.gatherAll {} s.mapInfo.entries).setTried := (mem_gatherAll {} n).mpr (.inr ⟨info, entryOf found, tried⟩)
    obtain ⟨info', found', there⟩ := slotted n member (by rw [noTried]; exact Finset.notMem_empty n)
    obtain rfl := Option.some.inj (found.symm.trans found')
    exact there
  · intro b i n here
    obtain ⟨member, info, found, place⟩ := listedTried (b, i) (mem_slots (b, i)) n here
    obtain ⟨info', listed, tried⟩ := ((mem_gatherAll {} n).mp member).resolve_left (Finset.notMem_empty n)
    obtain rfl := Option.some.inj (found.symm.trans (StdMap.mem_entries_iff.mp listed))
    exact ⟨info, found, tried, place⟩
  · intro b i n here
    obtain ⟨⟨left, listed⟩, info, found, place⟩ := listedNew (b, i) (mem_slots (b, i)) n here
    obtain ⟨info', member, untried, _⟩ := ((lookup_gatherAll fresh n left).mp listed).resolve_left nofun
    obtain rfl := Option.some.inj (found.symm.trans (StdMap.mem_entries_iff.mp member))
    exact ⟨info, found, untried, place⟩
  · intro n info found untried
    have listed := (lookup_gatherAll fresh n info.nRefCount).mpr (.inr ⟨info, entryOf found, untried, rfl⟩)
    have total := counted n
    rw [listed, noNew n, Option.getD_some, Option.getD_none, Int.add_zero] at total
    exact total
  · have total := length_gatherAll fresh
    have same : ((CheckSets.gatherAll {} s.mapInfo.entries).mapNew.entries.length : Int) = s.nNew := by simpa using sizedNew
    rw [← same, total]
    exact Int.zero_add _
  · have total := card_gatherAll fresh
    have same : ((CheckSets.gatherAll {} s.mapInfo.entries).setTried.card : Int) = s.nTried := by simpa using sizedTried
    rw [← same, total]
    exact Int.zero_add _
  · exact beq_eq_false_iff_ne.mp (Checked.refuse_ok.mp passed)

theorem Passed.addr_unique (passed : s.Passed k) (found : s.mapInfo.lookup n = some info)
    (found' : s.mapInfo.lookup n' = some info') (same : info.toCNetAddr = info'.toCNetAddr) : n = n' := by
  rw [← (passed.entry found).addr, ← (passed.entry found').addr, same]

end CAddrMan

end SchillingCoin.Net
