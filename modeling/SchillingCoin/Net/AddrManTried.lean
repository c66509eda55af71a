import SchillingCoin.Net.AddrManSteps

/-!
Entries that change tables: out of the new buckets into the tried table, back again when another entry takes the slot, and into a further new
bucket.
-/

namespace SchillingCoin.Net

namespace CAddrMan

variable {k : AddrBuckets} {s s' : CAddrMan} {loose : Nat → Prop} {uncounted : Int} {id : Nat} {info : CAddrInfo}

theorem forgetBucket_eq (s : CAddrMan) (id : Nat) (info : CAddrInfo) :
    s.forgetBucket k id info = Buckets.sweep (fun b => s.newPos k info b) id := rfl

theorem forgetNew_spec (valid : Valid k s loose uncounted) (found : s.mapInfo.lookup id = some info) (untried : info.fInTried = false) :
    Valid k (s.forgetNew k id info) (fun x => loose x ∨ x = id) (uncounted + 1) ∧
      (s.forgetNew k id info).mapInfo.lookup id = some { info with nRefCount := 0 } := by
  let place := fun b => s.newPos k info b
  have swept := Buckets.foldl_sweep_table place id (List.finRange ADDRMAN_NEW_BUCKET_COUNT) (s.vvNew, info.nRefCount)
  have kept := Buckets.foldl_sweep_count place id (List.finRange ADDRMAN_NEW_BUCKET_COUNT) (s.vvNew, info.nRefCount)
  unfold forgetNew
  rw [forgetBucket_eq]
  generalize (List.finRange ADDRMAN_NEW_BUCKET_COUNT).foldl (Buckets.sweep place id) (s.vvNew, info.nRefCount) = left at *
  have table (b : NewBucket) (i : BucketPosition) (x : Nat) : left.1 b i = some x ↔ s.vvNew b i = some x ∧ x ≠ id := by
    rw [swept]
    refine and_congr_right fun here => ⟨fun elsewhere same => ?_, fun other all => other all.2.2⟩
    subst same
    obtain ⟨info', found', _, spot, _⟩ := valid.held here
    rw [found] at found'
    cases found'
    exact elsewhere ⟨List.mem_finRange b, spot, rfl⟩
  have refs : left.2 = 0 := by
    have counted : info.nRefCount = Buckets.count s.vvNew place id := valid.slotted.refs (seats_of found)
    have gone : Buckets.count left.1 place id = 0 := Buckets.count_eq_zero.mpr fun b here => ((table b _ id).mp here).2 rfl
    dsimp only at kept
    omega
  dsimp only
  rw [refs]
  constructor
  · have fits := valid.ranged.fits found
    have few : (0 : Int) ≤ ADDRMAN_NEW_BUCKETS_PER_ADDRESS := by decide
    have slotted := valid.slotted.forget (seats_of found) untried table
    refine valid.reseat found { info with nRefCount := 0 } rfl ⟨few, fits.success, fits.lastTry, fits.lastSuccess⟩ slotted (fun _ => Or.inl (Or.inr rfl))
      (fun _ _ => Or.inl) ?_ rfl
    show s.nNew - 1 + (uncounted + 1) - newWeight id info = _
    omega
  · show (s.mapInfo.insert id _).lookup id = _
    rw [StdMap.lookup_insert_ite, if_pos rfl]

theorem evict_spec (valid : Valid k s loose uncounted) (here : s.vvTried b i = some old) :
    ∃ s', s.evict k b i old = some s' ∧ Valid k s' loose uncounted ∧ s'.nKey = s.nKey ∧ s'.vvTried = Buckets.set s.vvTried b i none ∧
      ∀ {id info}, s.mapInfo.lookup id = some info → info.fInTried = false → info.nRefCount = 0 → s'.entry id = s.entry id := by
  obtain ⟨seat, foundSeat, tried, _⟩ := valid.slotted.tried here
  obtain ⟨infoOld, foundOld, rfl⟩ := of_seats foundSeat
  have unused : infoOld.nRefCount = 0 := valid.slotted.tried_unused foundSeat tried
  have tried : infoOld.fInTried = true := tried
  have fits := valid.ranged.fits foundOld
  -- the entry leaves the tried table and is for now not counted at all
  have validUntried : Valid k { s.setInfo old { infoOld with fInTried := false } with
      vvTried := Buckets.set s.vvTried b i none, nTried := s.nTried - 1 } (fun x => loose x ∨ x = old) (uncounted + 1) := by
    refine valid.reseat foundOld { infoOld with fInTried := false } rfl ⟨fits.few, (fun tried => by cases tried), fits.lastTry, fits.lastSuccess⟩
      (valid.slotted.untry foundSeat here) (fun _ => Or.inl (Or.inr rfl)) (fun _ _ => Or.inl) ?_ ?_
    · simp only [newWeight, tried, Bool.false_eq_true, if_true, if_false]
      show s.nNew + (uncounted + 1) - 1 = _
      omega
    · simp only [triedWeight, tried, Bool.false_eq_true, if_true, if_false]
      omega
  have foundUntried : (s.mapInfo.insert old { infoOld with fInTried := false }).lookup old = some { infoOld with fInTried := false } := by
    rw [StdMap.lookup_insert_ite, if_pos rfl]
  let bucket := k.getNewBucket s.nKey infoOld.toCNetAddr infoOld.source
  let place := s.newPos k infoOld bucket
  obtain ⟨cleared, clear, valid', key, triedTable, newTable, kept⟩ := clearNew_spec validUntried bucket place
  have elsewhere : s.vvNew bucket place ≠ some old := valid.slotted.absent_new foundSeat unused _ _
  obtain ⟨pos, found'⟩ := of_entry (kept old elsewhere) foundUntried
  have empty : cleared.vvNew bucket place = none := by rw [newTable, Buckets.set_self]
  let infoBack := { infoOld with fInTried := false, nRandomPos := pos, nRefCount := 1 }
  have evicted : s.evict k b i old = some { cleared.setInfo old infoBack with
      vvNew := Buckets.set cleared.vvNew bucket place (some old), nNew := cleared.nNew + 1 } := by
    rw [evict, foundOld]
    simp only [Option.bind_eq_bind, Option.bind_some, bucket, place] at clear empty ⊢
    rw [clear]
    simp only [Option.bind_some, found', empty, ne_eq, not_true_eq_false, if_false]
    rfl
  refine ⟨_, evicted, ?_, key, triedTable, fun {id info} found untried none_ => ?_⟩
  · have placed : place = k.newPlace cleared.nKey infoOld.toCService bucket := by
      rw [key]
      rfl
    have slotted : Slotted k cleared.nKey (Function.update cleared.seats old (some infoBack.seat)) cleared.vvTried
        (Buckets.set cleared.vvNew bucket place (some old)) := by
      rw [placed] at empty ⊢
      have filled := valid'.slotted.fill (seats_of found') rfl empty
      have seat : infoBack.seat = ⟨infoOld.toCService, false, infoOld.nRefCount + 1⟩ := by
        rw [unused]
        rfl
      rw [seat]
      exact filled
    have few : (1 : Int) ≤ ADDRMAN_NEW_BUCKETS_PER_ADDRESS := by decide
    refine valid'.reseat found' infoBack rfl ⟨few, (fun tried => by cases tried), fits.lastTry, fits.lastSuccess⟩ slotted (fun _ => Or.inr Int.one_pos)
      (fun id' other held => held.resolve_right other) ?_ rfl
    simp only [newWeight, infoBack, Bool.false_eq_true, if_false]
    omega
  · have other : id ≠ old := by
      rintro rfl
      rw [foundOld] at found
      cases found
      rw [tried] at untried
      cases untried
    have back := entry_setInfo cleared old infoBack id
    rw [if_neg other] at back
    have before := entry_setInfo s old { infoOld with fInTried := false } id
    rw [if_neg other] at before
    have absent : s.vvNew bucket place ≠ some id := valid.slotted.absent_new (seats_of found) none_ _ _
    exact (back.trans (kept id absent)).trans before

theorem makeRoom_spec (valid : Valid k s loose uncounted) (b : TriedBucket) (i : BucketPosition) :
    ∃ s', s.makeRoom k b i = some s' ∧ Valid k s' loose uncounted ∧ s'.nKey = s.nKey ∧ s'.vvTried b i = none ∧
      ∀ {id info}, s.mapInfo.lookup id = some info → info.fInTried = false → info.nRefCount = 0 → s'.entry id = s.entry id := by
  cases here : s.vvTried b i with
  | none => exact ⟨s, by rw [makeRoom, here], valid, rfl, here, fun _ _ _ => rfl⟩
  | some old =>
    obtain ⟨s', evicted, valid', key, table, kept⟩ := evict_spec valid here
    exact ⟨s', by rw [makeRoom, here]; exact evicted, valid', key, by rw [table, Buckets.set_self], kept⟩

theorem enterTried_spec (valid : Valid k s (fun x => loose x ∨ x = id) (uncounted + 1)) (found : s.mapInfo.lookup id = some info)
    (untried : info.fInTried = false) (unused : info.nRefCount = 0) (success : info.nLastSuccess ≠ 0)
    (empty : s.vvTried (s.triedBucket k info) (s.triedPos k info) = none) :
    ∃ s', s.enterTried id (s.triedBucket k info) (s.triedPos k info) = some s' ∧ Valid k s' loose uncounted ∧ s'.nKey = s.nKey := by
  have enter : s.enterTried id (s.triedBucket k info) (s.triedPos k info) = some { s.setInfo id { info with fInTried := true } with
      vvTried := Buckets.set s.vvTried (s.triedBucket k info) (s.triedPos k info) (some id), nTried := s.nTried + 1 } := by
    rw [enterTried, found]
    simp only [Option.bind_eq_bind, Option.bind_some, empty, ne_eq, not_true_eq_false, if_false]
  refine ⟨_, enter, ?_, rfl⟩
  have fits := valid.ranged.fits found
  refine valid.reseat found { info with fInTried := true } rfl ⟨fits.few, fun _ => success, fits.lastTry, fits.lastSuccess⟩
    (valid.slotted.enter (seats_of found) untried unused empty) (fun tried => by cases tried) (fun id' other held => held.resolve_right other) ?_ ?_
  · simp only [newWeight, untried, Bool.false_eq_true, if_true, if_false]
    show s.nNew + uncounted - 0 = _
    omega
  · simp only [triedWeight, untried, Bool.false_eq_true, if_true, if_false]
    omega

theorem makeTried_spec (valid : Valid k s loose uncounted) (found : s.mapInfo.lookup id = some info) (untried : info.fInTried = false)
    (success : info.nLastSuccess ≠ 0) : ∃ s', s.makeTried k id = some s' ∧ Valid k s' loose uncounted ∧ s'.nKey = s.nKey := by
  obtain ⟨validForgotten, foundForgotten⟩ := forgetNew_spec valid found untried
  obtain ⟨room, made, validRoom, keyRoom, empty, kept⟩ := makeRoom_spec validForgotten (s.triedBucket k info) (s.triedPos k info)
  obtain ⟨pos, foundRoom⟩ := of_entry (kept foundForgotten untried rfl) foundForgotten
  have keyRoom : room.nKey = s.nKey := keyRoom
  have bucket : room.triedBucket k { info with nRefCount := 0, nRandomPos := pos } = s.triedBucket k info := by
    rw [triedBucket, keyRoom]
    rfl
  have place : room.triedPos k { info with nRefCount := 0, nRandomPos := pos } = s.triedPos k info := by
    rw [triedPos, triedPos, bucket, keyRoom]
  have entered := enterTried_spec validRoom foundRoom untried rfl success (by rw [bucket, place]; exact empty)
  rw [bucket, place] at entered
  obtain ⟨s', enter, valid', key⟩ := entered
  refine ⟨s', ?_, valid', key.trans keyRoom⟩
  rw [makeTried, found]
  simp only [Option.bind_eq_bind, Option.bind_some, foundForgotten, ne_eq, not_true_eq_false, if_false]
  show ((s.forgetNew k id info).makeRoom k (s.triedBucket k info) (s.triedPos k info)).bind
    (fun room => room.enterTried id (s.triedBucket k info) (s.triedPos k info)) = some s'
  rw [made]
  exact enter

end CAddrMan

end SchillingCoin.Net
