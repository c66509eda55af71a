import Mathlib.Algebra.Ring.Int.Defs
import SchillingCoin.Net.AddrManOps
import SchillingCoin.Lib.Run
import Mathlib.Data.List.ProdSigma

/-!
The consistency check of the address manager, and that it passes after every operation of every run.
-/

namespace SchillingCoin.Net

open Checked (refuse)

namespace CAddrMan

structure CheckSets where
  setTried : Finset Nat := ∅
  mapNew : StdMap Nat Int := ∅

def CheckSets.gather (sets : CheckSets) (n : Nat) (info : CAddrInfo) : CheckSets :=
  if info.fInTried then { sets with setTried := insert n sets.setTried }
  else { sets with mapNew := sets.mapNew.insert n info.nRefCount }

def checkTable (info : CAddrInfo) : Except Int Unit :=
  if info.fInTried then do
    refuse (info.nLastSuccess == 0) (-1)
    refuse (info.nRefCount != 0) (-2)
  else do
    refuse (decide (info.nRefCount < 0 ∨ info.nRefCount > ADDRMAN_NEW_BUCKETS_PER_ADDRESS)) (-3)
    refuse (info.nRefCount == 0) (-4)

/-- An address without an id reads as `0`. -/
def checkEntry (s : CAddrMan) (sets : CheckSets) (n : Nat) (info : CAddrInfo) : Except Int CheckSets := do
  checkTable info
  refuse ((s.mapAddr.lookup info.toCNetAddr).getD 0 != n) (-5)
  refuse (s.vRandom[info.nRandomPos]? != some n) (-14)
  refuse (decide (info.nLastTry < 0)) (-6)
  refuse (decide (info.nLastSuccess < 0)) (-8)
  return sets.gather n info

variable (k : AddrBuckets)

def checkTriedSlot (s : CAddrMan) (setTried : Finset Nat) (slot : TriedBucket × BucketPosition) : Except Int (Finset Nat) :=
  match s.vvTried slot.1 slot.2 with
  | none => .ok setTried
  | some nId => do
    let info := s.mapInfo.lookup nId
    refuse (decide (nId ∉ setTried)) (-11)
    refuse (info.map (s.triedBucket k) != some slot.1) (-17)
    refuse (info.map (fun info => k.getBucketPosition s.nKey false slot.1 info.toCService) != some slot.2) (-18)
    return setTried.erase nId

def countDown (mapNew : StdMap Nat Int) (nId : Nat) : StdMap Nat Int :=
  let left := (mapNew.lookup nId).getD 0 - 1
  if left = 0 then mapNew.erase nId else mapNew.insert nId left

def checkNewSlot (s : CAddrMan) (mapNew : StdMap Nat Int) (slot : NewBucket × BucketPosition) : Except Int (StdMap Nat Int) :=
  match s.vvNew slot.1 slot.2 with
  | none => .ok mapNew
  | some nId => do
    let info := s.mapInfo.lookup nId
    refuse (mapNew.lookup nId).isNone (-12)
    refuse (info.map (fun info => s.newPos k info slot.1) != some slot.2) (-19)
    return countDown mapNew nId

def slots (n : Nat) : List (Fin n × BucketPosition) := List.finRange n ×ˢ List.finRange ADDRMAN_BUCKET_SIZE

/-- Without an error where `Check_` returns `0`. -/
def check (s : CAddrMan) : Except Int Unit := do
  refuse ((s.vRandom.length : Int) != s.nTried + s.nNew) (-7)
  let sets ← s.mapInfo.entries.foldlM (fun sets e => s.checkEntry sets e.1 e.2) {}
  refuse ((sets.setTried.card : Int) != s.nTried) (-9)
  refuse ((sets.mapNew.entries.length : Int) != s.nNew) (-10)
  let setTried ← (slots ADDRMAN_TRIED_BUCKET_COUNT).foldlM (s.checkTriedSlot k) sets.setTried
  let mapNew ← (slots ADDRMAN_NEW_BUCKET_COUNT).foldlM (s.checkNewSlot k) sets.mapNew
  refuse (setTried.card != 0) (-13)
  refuse (!mapNew.entries.isEmpty) (-15)
  refuse (s.nKey == 0) (-16)

variable {k} {s : CAddrMan}

variable {id : Nat} {info : CAddrInfo}

theorem checkTable_ok (valid : Settled k s) (found : s.mapInfo.lookup id = some info) :
    checkTable info = .ok () := by
  have fits := valid.ranged.fits found
  unfold checkTable
  split
  · next tried =>
    have success : (info.nLastSuccess == 0) = false := by simpa using fits.success tried
    have unused : info.nRefCount = 0 := valid.slotted.tried_unused (seats_of found) tried
    rw [success, unused]
    rfl
  · next untried =>
    have few := fits.few
    have used : 0 < info.nRefCount := (valid.ranged.used found (by simpa using untried)).resolve_left not_false
    have known : (info.nRefCount == 0) = false := by
      rw [beq_eq_false_iff_ne]
      omega
    rw [decide_eq_false (by omega), known]
    rfl

theorem checkEntry_ok (valid : Settled k s) (found : s.mapInfo.lookup id = some info) (sets : CheckSets) :
    s.checkEntry sets id info = .ok (sets.gather id info) := by
  have fits := valid.ranged.fits found
  have address : s.mapAddr.lookup info.toCNetAddr = some id := valid.indexed.addr (spots_of found)
  have random := valid.random found
  have lastTry := fits.lastTry
  have lastSuccess := fits.lastSuccess
  unfold checkEntry
  rw [checkTable_ok valid found, Checked.ok_bind, address, random, decide_eq_false (by omega), decide_eq_false (by omega)]
  simp

theorem checkEntries_ok (valid : Settled k s) (sets : CheckSets) :
    s.mapInfo.entries.foldlM (fun sets e => s.checkEntry sets e.1 e.2) sets =
      .ok (s.mapInfo.entries.foldl (fun sets e => sets.gather e.1 e.2) sets) := by
  have known : ∀ e ∈ s.mapInfo.entries, s.mapInfo.lookup e.1 = some e.2 := fun e member => StdMap.mem_entries_iff.mp member
  generalize s.mapInfo.entries = entries at known ⊢
  induction entries generalizing sets with
  | nil => rfl
  | cons e entries ih =>
    rw [List.foldlM_cons, checkEntry_ok valid (known e List.mem_cons_self), Checked.ok_bind, List.foldl_cons]
    exact ih _ fun e' member => known e' (List.mem_cons_of_mem e member)

section Gathered

variable {entries : List (Sigma fun _ : Nat => CAddrInfo)}

def CheckSets.gatherAll (sets : CheckSets) (entries : List (Sigma fun _ : Nat => CAddrInfo)) : CheckSets :=
  entries.foldl (fun sets e => sets.gather e.1 e.2) sets

def CheckSets.Fresh (sets : CheckSets) (entries : List (Sigma fun _ : Nat => CAddrInfo)) : Prop :=
  (entries.map Sigma.fst).Nodup ∧ ∀ e ∈ entries, e.1 ∉ sets.setTried ∧ sets.mapNew.lookup e.1 = none

variable {sets : CheckSets}

theorem CheckSets.Fresh.tail (fresh : sets.Fresh (e :: entries)) : (sets.gather e.1 e.2).Fresh entries := by
  obtain ⟨distinct, unknown⟩ := fresh
  obtain ⟨apart, distinct⟩ := List.nodup_cons.mp distinct
  refine ⟨distinct, fun e' member => ?_⟩
  have other : e'.1 ≠ e.1 := fun same => apart (same ▸ List.mem_map_of_mem member)
  obtain ⟨notTried, notNew⟩ := unknown e' (List.mem_cons_of_mem e member)
  unfold gather
  split
  · exact ⟨by simp [other, notTried], notNew⟩
  · exact ⟨notTried, by simp [other, notNew]⟩

theorem mem_gatherAll (sets : CheckSets) (id : Nat) :
    id ∈ (sets.gatherAll entries).setTried ↔ id ∈ sets.setTried ∨ ∃ info, ⟨id, info⟩ ∈ entries ∧ info.fInTried = true := by
  induction entries generalizing sets with
  | nil => simp [CheckSets.gatherAll]
  | cons e entries ih =>
    have rest := ih (sets.gather e.1 e.2)
    have head : id ∈ (sets.gather e.1 e.2).setTried ↔ id ∈ sets.setTried ∨ ∃ info, ⟨id, info⟩ = e ∧ info.fInTried = true := by
      obtain ⟨n, info⟩ := e
      unfold CheckSets.gather
      split
      · next tried =>
        rw [Finset.mem_insert, or_comm]
        refine or_congr_right ⟨?_, ?_⟩
        · rintro rfl
          exact ⟨info, rfl, tried⟩
        · rintro ⟨_, same, _⟩
          exact congrArg Sigma.fst same
      · next untried =>
        refine (or_iff_left ?_).symm
        rintro ⟨_, same, tried⟩
        cases same
        exact untried tried
    rw [CheckSets.gatherAll, List.foldl_cons]
    rw [CheckSets.gatherAll, head, or_assoc] at rest
    rw [rest]
    refine or_congr_right ?_
    simp only [List.mem_cons, or_and_right, exists_or]

theorem lookup_gatherAll (fresh : sets.Fresh entries) (id : Nat) (r : Int) :
    (sets.gatherAll entries).mapNew.lookup id = some r ↔
      sets.mapNew.lookup id = some r ∨ ∃ info, ⟨id, info⟩ ∈ entries ∧ info.fInTried = false ∧ info.nRefCount = r := by
  induction entries generalizing sets with
  | nil => simp [CheckSets.gatherAll]
  | cons e entries ih =>
    have rest := ih fresh.tail
    have head : (sets.gather e.1 e.2).mapNew.lookup id = some r ↔
        sets.mapNew.lookup id = some r ∨ ∃ info, ⟨id, info⟩ = e ∧ info.fInTried = false ∧ info.nRefCount = r := by
      obtain ⟨n, info⟩ := e
      have unknown := (fresh.2 _ List.mem_cons_self).2
      unfold CheckSets.gather
      split
      · next tried =>
        refine (or_iff_left ?_).symm
        rintro ⟨_, same, untried, _⟩
        cases same
        rw [tried] at untried
        cases untried
      · next untried =>
        rw [StdMap.lookup_insert_ite]
        by_cases here : id = n
        · subst here
          rw [if_pos rfl, unknown]
          constructor
          · intro same
            exact Or.inr ⟨info, rfl, by simpa using untried, Option.some.inj same⟩
          · rintro (impossible | ⟨_, same, _, rfl⟩)
            · cases impossible
            · cases same
              rfl
        · rw [if_neg here]
          refine (or_iff_left ?_).symm
          rintro ⟨_, same, _⟩
          exact here (congrArg Sigma.fst same)
    rw [CheckSets.gatherAll, List.foldl_cons]
    rw [CheckSets.gatherAll, head, or_assoc] at rest
    rw [rest]
    refine or_congr_right ?_
    simp only [List.mem_cons, or_and_right, exists_or]

theorem card_gatherAll (fresh : sets.Fresh entries) :
    ((sets.gatherAll entries).setTried.card : Int) = sets.setTried.card + (entries.map fun e => triedWeight e.1 e.2).sum := by
  induction entries generalizing sets with
  | nil => simp [CheckSets.gatherAll]
  | cons e entries ih =>
    have rest := ih fresh.tail
    have head : ((sets.gather e.1 e.2).setTried.card : Int) = sets.setTried.card + triedWeight e.1 e.2 := by
      unfold CheckSets.gather triedWeight
      split
      · rw [Finset.card_insert_of_notMem (fresh.2 e List.mem_cons_self).1]
        rfl
      · exact (Int.add_zero _).symm
    rw [CheckSets.gatherAll, List.foldl_cons, List.map_cons, List.sum_cons]
    rw [CheckSets.gatherAll, head] at rest
    rw [rest, Int.add_assoc]

theorem length_gatherAll (fresh : sets.Fresh entries) :
    ((sets.gatherAll entries).mapNew.entries.length : Int) = sets.mapNew.entries.length + (entries.map fun e => newWeight e.1 e.2).sum := by
  induction entries generalizing sets with
  | nil => simp [CheckSets.gatherAll]
  | cons e entries ih =>
    have rest := ih fresh.tail
    have size (m : StdMap Nat Int) : (m.entries.length : Int) = StdMap.sum (fun _ _ => (1 : Int)) m := by simp [StdMap.sum]
    have head : ((sets.gather e.1 e.2).mapNew.entries.length : Int) = sets.mapNew.entries.length + newWeight e.1 e.2 := by
      unfold CheckSets.gather newWeight
      split
      · exact (Int.add_zero _).symm
      · dsimp only
        rw [size, size, StdMap.sum_insert_absent _ _ (fresh.2 e List.mem_cons_self).2, Int.add_comm]
    rw [CheckSets.gatherAll, List.foldl_cons, List.map_cons, List.sum_cons]
    rw [CheckSets.gatherAll, head] at rest
    rw [rest, Int.add_assoc]

end Gathered

theorem mem_slots (slot : Fin n × BucketPosition) : slot ∈ slots n :=
  List.mem_product.mpr ⟨List.mem_finRange _, List.mem_finRange _⟩

theorem nodup_slots (n : Nat) : (slots n).Nodup := (List.nodup_finRange _).product (List.nodup_finRange _)

theorem checkTriedSlots_ok (valid : Settled k s) {slots : List (TriedBucket × BucketPosition)} (distinct : slots.Nodup)
    (due : ∀ id, id ∈ setTried ↔ ∃ slot ∈ slots, s.vvTried slot.1 slot.2 = some id) :
    slots.foldlM (s.checkTriedSlot k) setTried = .ok ∅ := by
  induction slots generalizing setTried with
  | nil =>
    have none_ : setTried = ∅ := Finset.eq_empty_of_forall_notMem fun id member => by
      obtain ⟨_, absent, _⟩ := (due id).mp member
      cases absent
    rw [none_]
    rfl
  | cons slot slots ih =>
    obtain ⟨apart, distinct⟩ := List.nodup_cons.mp distinct
    rw [List.foldlM_cons]
    cases here : s.vvTried slot.1 slot.2 with
    | none =>
      have passed : s.checkTriedSlot k setTried slot = .ok setTried := by rw [checkTriedSlot, here]
      rw [passed, Checked.ok_bind]
      refine ih distinct fun id => (due id).trans ?_
      simp [here]
    | some nId =>
      obtain ⟨seat, foundSeat, tried, bucket, place⟩ := valid.slotted.tried here
      obtain ⟨info, found, rfl⟩ := of_seats foundSeat
      have listed : nId ∈ setTried := (due nId).mpr ⟨slot, List.mem_cons_self, here⟩
      have bucket : s.triedBucket k info = slot.1 := bucket.symm
      have place : k.getBucketPosition s.nKey false slot.1 info.toCService = slot.2 := by
        rw [place, ← bucket]
        rfl
      have passed : s.checkTriedSlot k setTried slot = .ok (setTried.erase nId) := by
        rw [checkTriedSlot, here]
        simp only [found, Option.map_some, bucket, place, listed, not_true_eq_false, decide_false, bne_self_eq_false, Checked.refuse_false,
          Checked.ok_bind]
        rfl
      rw [passed, Checked.ok_bind]
      refine ih distinct fun id => ?_
      rw [Finset.mem_erase, due id]
      constructor
      · rintro ⟨other, slot', member, there⟩
        rcases List.mem_cons.mp member with rfl | member
        · rw [here] at there
          exact absurd (Option.some.inj there).symm other
        · exact ⟨slot', member, there⟩
      · rintro ⟨slot', member, there⟩
        refine ⟨?_, slot', List.mem_cons_of_mem slot member, there⟩
        -- a tried id has one slot
        rintro rfl
        obtain ⟨seat', foundSeat', _, bucket', place'⟩ := valid.slotted.tried there
        rw [foundSeat] at foundSeat'
        cases foundSeat'
        have same : slot' = slot := Prod.ext (bucket'.trans bucket) (by rw [place', ← place, ← bucket]; rfl)
        exact apart (same ▸ member)

theorem checkNewSlots_ok (valid : Settled k s) {slots : List (NewBucket × BucketPosition)} {mapNew : StdMap Nat Int}
    (due : ∀ id r, mapNew.lookup id = some r ↔ 0 < r ∧ r = slots.countP (Buckets.held s.vvNew id)) :
    ∃ mapNew', slots.foldlM (s.checkNewSlot k) mapNew = .ok mapNew' ∧ ∀ id, mapNew'.lookup id = none := by
  induction slots generalizing mapNew with
  | nil =>
    refine ⟨mapNew, rfl, fun id => Option.eq_none_iff_forall_ne_some.mpr fun r there => ?_⟩
    obtain ⟨positive, none_⟩ := (due id r).mp there
    rw [List.countP_nil] at none_
    omega
  | cons slot slots ih =>
    rw [List.foldlM_cons]
    cases here : s.vvNew slot.1 slot.2 with
    | none =>
      have passed : s.checkNewSlot k mapNew slot = .ok mapNew := by rw [checkNewSlot, here]
      rw [passed, Checked.ok_bind]
      refine ih fun id r => (due id r).trans ?_
      rw [List.countP_cons_of_neg (by simp [Buckets.held, here])]
    | some nId =>
      obtain ⟨info, found, _, place, _⟩ := valid.held here
      have counted : slots.countP (Buckets.held s.vvNew nId) + 1 = (slot :: slots).countP (Buckets.held s.vvNew nId) :=
        (List.countP_cons_of_pos (by simp [Buckets.held, here])).symm
      have listed : mapNew.lookup nId = some (slots.countP (Buckets.held s.vvNew nId) + 1 : Int) :=
        (due nId _).mpr ⟨by omega, by omega⟩
      have passed : s.checkNewSlot k mapNew slot = .ok (countDown mapNew nId) := by
        rw [checkNewSlot, here]
        simp only [found, Option.map_some, ← place, listed, Option.isNone_some, bne_self_eq_false, Checked.refuse_false, Checked.ok_bind]
        rfl
      rw [passed, Checked.ok_bind]
      refine ih fun id r => ?_
      by_cases same : id = nId
      · subst same
        have left : (countDown mapNew id).lookup id =
            if (slots.countP (Buckets.held s.vvNew id) : Int) = 0 then none else some (slots.countP (Buckets.held s.vvNew id) : Int) := by
          simp only [countDown, listed, Option.getD_some, Int.add_sub_cancel]
          split
          · simp
          · simp
        rw [left]
        split
        · next none_ =>
          constructor
          · intro stop
            cases stop
          · omega
        · next some_ =>
          constructor
          · intro equal
            cases equal
            omega
          · intro equal
            rw [equal.2]
      · have left : (countDown mapNew nId).lookup id = mapNew.lookup id := by
          simp only [countDown]
          split
          · simp [same]
          · simp [same]
        have others : (slot :: slots).countP (Buckets.held s.vvNew id) = slots.countP (Buckets.held s.vvNew id) := by
          refine List.countP_cons_of_neg ?_
          simpa [Buckets.held, here] using Ne.symm same
        rw [left, due id r, others]

theorem fresh_entries (s : CAddrMan) : CheckSets.Fresh {} s.mapInfo.entries := ⟨s.mapInfo.nodupKeys, fun _ _ => ⟨by simp, rfl⟩⟩

theorem tried_due (valid : Settled k s) (id : Nat) :
    id ∈ (CheckSets.gatherAll {} s.mapInfo.entries).setTried ↔
      ∃ slot ∈ slots ADDRMAN_TRIED_BUCKET_COUNT, s.vvTried slot.1 slot.2 = some id := by
  rw [mem_gatherAll, or_iff_right (by simp)]
  constructor
  · rintro ⟨info, member, tried⟩
    exact ⟨_, mem_slots (_, _), valid.slotted.slot (seats_of (StdMap.mem_entries_iff.mp member)) tried⟩
  · rintro ⟨slot, _, here⟩
    obtain ⟨seat, seated, tried, _⟩ := valid.slotted.tried here
    obtain ⟨info, found, rfl⟩ := of_seats seated
    exact ⟨info, StdMap.mem_entries_iff.mpr found, tried⟩

theorem refs_eq_countP (valid : Settled k s) (found : s.mapInfo.lookup id = some info) :
    info.nRefCount = (slots ADDRMAN_NEW_BUCKET_COUNT).countP (Buckets.held s.vvNew id) := by
  have refs : info.nRefCount = Buckets.count s.vvNew (s.newPos k info) id := valid.slotted.refs (seats_of found)
  rw [refs, Buckets.countP_held (fun b p here => ?_) (nodup_slots _) mem_slots]
  obtain ⟨info', found', _, place, _⟩ := valid.held here
  rw [found] at found'
  cases found'
  exact place

theorem new_due (valid : Settled k s) (id : Nat) (r : Int) :
    (CheckSets.gatherAll {} s.mapInfo.entries).mapNew.lookup id = some r ↔
      0 < r ∧ r = (slots ADDRMAN_NEW_BUCKET_COUNT).countP (Buckets.held s.vvNew id) := by
  rw [lookup_gatherAll (fresh_entries s), or_iff_right (by simp)]
  constructor
  · rintro ⟨info, member, untried, rfl⟩
    have found := StdMap.mem_entries_iff.mp member
    exact ⟨(valid.ranged.used found untried).resolve_left not_false, refs_eq_countP valid found⟩
  · rintro ⟨positive, rfl⟩
    obtain ⟨slot, _, here⟩ := List.countP_pos_iff.mp (Int.natCast_pos.mp positive)
    obtain ⟨info, found, untried, _⟩ := valid.held (of_decide_eq_true here)
    exact ⟨info, StdMap.mem_entries_iff.mpr found, untried, refs_eq_countP valid found⟩

theorem check_ok (valid : Settled k s) (nonnull : s.nKey ≠ 0) : s.check k = .ok () := by
  have new := valid.counted.new
  have tried := valid.counted.tried
  have all_ := valid.counted.all
  have cardTried := card_gatherAll (fresh_entries s)
  have lengthNew := length_gatherAll (fresh_entries s)
  have total : StdMap.sum (fun _ _ => (1 : Int)) s.mapInfo = StdMap.sum triedWeight s.mapInfo + StdMap.sum newWeight s.mapInfo := by
    simp only [StdMap.sum, ← List.sum_map_add]
    congr 2
    funext e
    unfold triedWeight newWeight
    cases e.2.fInTried <;> rfl
  have sized : (s.vRandom.length : Int) = s.nTried + s.nNew := by omega
  have sizedTried : ((CheckSets.gatherAll {} s.mapInfo.entries).setTried.card : Int) = s.nTried := by
    rw [cardTried, tried]
    exact Int.zero_add _
  have sizedNew : ((CheckSets.gatherAll {} s.mapInfo.entries).mapNew.entries.length : Int) = s.nNew := by
    rw [lengthNew, ← Int.add_zero s.nNew, new]
    exact Int.zero_add _
  obtain ⟨mapNew, passedNew, none_⟩ := checkNewSlots_ok valid (new_due valid)
  have emptied : mapNew.entries = [] := by
    refine List.eq_nil_iff_forall_not_mem.mpr fun e member => ?_
    have present := StdMap.mem_entries_iff.mp member
    rw [none_] at present
    cases present
  have gathered : s.mapInfo.entries.foldlM (fun sets e => s.checkEntry sets e.1 e.2) {} = .ok (CheckSets.gatherAll {} s.mapInfo.entries) :=
    checkEntries_ok valid {}
  unfold check
  rw [sized, gathered]
  simp only [bne_self_eq_false, Checked.refuse_false, Checked.ok_bind, sizedTried, sizedNew,
    checkTriedSlots_ok valid (nodup_slots _) (tried_due valid), passedNew, emptied]
  exact Checked.refuse_ok.mpr (by simpa using nonnull)

end CAddrMan

end SchillingCoin.Net
