import SchillingCoin.Net.AddrTables

/-!
What the steps of the address manager keep: the indexes agree with the entries, the counts are right, and no assertion fails. In the middle
of an operation some entries are loose: they hold no place, and some of them are not counted.
-/

namespace SchillingCoin.Net

namespace CAddrMan

variable {k : AddrBuckets} {s s' s'' : CAddrMan} {loose : Nat → Prop} {uncounted : Int} {id : Nat} {info info' : CAddrInfo}

def seats (s : CAddrMan) (id : Nat) : Option Seat := (s.mapInfo.lookup id).map CAddrInfo.seat

def spots (s : CAddrMan) (id : Nat) : Option Spot := (s.mapInfo.lookup id).map CAddrInfo.spot

structure InRange (info : CAddrInfo) : Prop where
  few : info.nRefCount ≤ ADDRMAN_NEW_BUCKETS_PER_ADDRESS
  success : info.fInTried = true → info.nLastSuccess ≠ 0
  lastTry : 0 ≤ info.nLastTry
  lastSuccess : 0 ≤ info.nLastSuccess

structure Ranged (s : CAddrMan) (loose : Nat → Prop) : Prop where
  fits : ∀ {id info}, s.mapInfo.lookup id = some info → InRange info
  used : ∀ {id info}, s.mapInfo.lookup id = some info → info.fInTried = false → loose id ∨ 0 < info.nRefCount

def newWeight (_ : Nat) (info : CAddrInfo) : Int := if info.fInTried then 0 else 1

def triedWeight (_ : Nat) (info : CAddrInfo) : Int := if info.fInTried then 1 else 0

structure Counted (s : CAddrMan) (uncounted : Int) : Prop where
  new : s.nNew + uncounted = StdMap.sum newWeight s.mapInfo
  tried : s.nTried = StdMap.sum triedWeight s.mapInfo
  all : (s.vRandom.length : Int) = StdMap.sum (fun _ _ => 1) s.mapInfo

structure Valid (k : AddrBuckets) (s : CAddrMan) (loose : Nat → Prop) (uncounted : Int) : Prop where
  indexed : Indexed s.spots s.mapAddr.lookup s.vRandom s.nIdCount
  slotted : Slotted k s.nKey s.seats s.vvTried s.vvNew
  ranged : s.Ranged loose
  counted : s.Counted uncounted

theorem seats_of (found : s.mapInfo.lookup id = some info) : s.seats id = some info.seat := by rw [seats, found, Option.map_some]

theorem spots_of (found : s.mapInfo.lookup id = some info) : s.spots id = some info.spot := by rw [spots, found, Option.map_some]

theorem of_seats (found : s.seats id = some seat) : ∃ info, s.mapInfo.lookup id = some info ∧ info.seat = seat :=
  Option.map_eq_some_iff.mp found

theorem of_spots (found : s.spots id = some spot) : ∃ info, s.mapInfo.lookup id = some info ∧ info.spot = spot :=
  Option.map_eq_some_iff.mp found

theorem lookup_setInfo (s : CAddrMan) (id : Nat) (info : CAddrInfo) (id' : Nat) :
    (s.setInfo id info).mapInfo.lookup id' = if id' = id then some info else s.mapInfo.lookup id' := StdMap.lookup_insert_ite ..

theorem seats_setInfo (s : CAddrMan) (id : Nat) (info : CAddrInfo) :
    (s.setInfo id info).seats = Function.update s.seats id (some info.seat) := by
  funext id'
  rw [seats, lookup_setInfo]
  by_cases same : id' = id
  · subst same
    rw [if_pos rfl, Function.update_self, Option.map_some]
  · rw [if_neg same, Function.update_of_ne same]
    rfl

theorem spots_setInfo (found : s.mapInfo.lookup id = some info) (same : info'.spot = info.spot) :
    (s.setInfo id info').spots = s.spots := by
  funext id'
  rw [spots, lookup_setInfo]
  split
  · next here => rw [here, spots_of found, Option.map_some, same]
  · rfl

theorem seats_setInfo_same (found : s.mapInfo.lookup id = some info) (same : info'.seat = info.seat) :
    (s.setInfo id info').seats = s.seats := by
  rw [seats_setInfo, same, ← seats_of found]
  exact Function.update_eq_self id s.seats

theorem Ranged.set (ranged : s.Ranged loose) (fits : InRange info)
    (here : info.fInTried = false → loose' id ∨ 0 < info.nRefCount) (others : ∀ id', id' ≠ id → loose id' → loose' id') :
    (s.setInfo id info).Ranged loose' := by
  constructor
  · intro id' info' found
    rw [lookup_setInfo] at found
    split at found
    · cases found
      exact fits
    · exact ranged.fits found
  · intro id' info' found untried
    rw [lookup_setInfo] at found
    split at found
    · next same =>
      cases found
      exact same ▸ here untried
    · next other => exact (ranged.used found untried).imp_left (others id' other)

theorem Counted.set (counted : s.Counted uncounted) (found : s.mapInfo.lookup id = some info)
    (new : s'.nNew + uncounted' - newWeight id info' = s.nNew + uncounted - newWeight id info)
    (tried : s'.nTried - triedWeight id info' = s.nTried - triedWeight id info) (list : s'.vRandom.length = s.vRandom.length)
    (map : s'.mapInfo = s.mapInfo.insert id info') : s'.Counted uncounted' := by
  have oldNew := counted.new
  have oldTried := counted.tried
  have oldAll := counted.all
  constructor
  · rw [map, StdMap.sum_replace newWeight info' found]
    omega
  · rw [map, StdMap.sum_replace triedWeight info' found]
    omega
  · rw [map, StdMap.sum_replace (fun _ _ => (1 : Int)) info' found, list]
    omega

theorem Valid.setInfo (valid : Valid k s loose uncounted) (found : s.mapInfo.lookup id = some info) (seat : info'.seat = info.seat)
    (spot : info'.spot = info.spot) (fits : InRange info') : Valid k (s.setInfo id info') loose uncounted := by
  have tried : info'.fInTried = info.fInTried := congrArg Seat.fInTried seat
  have refs : info'.nRefCount = info.nRefCount := congrArg Seat.nRefCount seat
  constructor
  · rw [spots_setInfo found spot]
    exact valid.indexed
  · rw [seats_setInfo_same found seat]
    exact valid.slotted
  · refine valid.ranged.set fits (fun untried => ?_) fun _ _ loose => loose
    rw [tried] at untried
    rw [refs]
    exact valid.ranged.used found untried
  · refine valid.counted.set found ?_ ?_ rfl rfl
    · simp only [newWeight, tried]
      rfl
    · simp only [triedWeight, tried]
      rfl

def anywhere (info : CAddrInfo) : CAddrInfo := { info with nRandomPos := 0 }

def entry (s : CAddrMan) (id : Nat) : Option CAddrInfo := (s.mapInfo.lookup id).map anywhere

theorem entry_of (found : s.mapInfo.lookup id = some info) : s.entry id = some (anywhere info) := by rw [entry, found, Option.map_some]

theorem of_entry (same : s'.entry id = s.entry id) (found : s.mapInfo.lookup id = some info) :
    ∃ pos, s'.mapInfo.lookup id = some { info with nRandomPos := pos } := by
  rw [entry_of found] at same
  obtain ⟨info', found', equal⟩ := Option.map_eq_some_iff.mp same
  refine ⟨info'.nRandomPos, ?_⟩
  rw [found']
  cases info
  cases info'
  simp only [anywhere, CAddrInfo.mk.injEq] at equal ⊢
  simp [equal]

theorem seats_entry (s : CAddrMan) (id : Nat) : s.seats id = (s.entry id).map CAddrInfo.seat := by
  rw [seats, entry, Option.map_map]
  rfl

theorem seats_of_entries (same : ∀ id, s'.entry id = s.entry id) : s'.seats = s.seats := by
  funext id
  rw [seats_entry, seats_entry, same]

theorem sum_of_entries (same : ∀ id, s'.entry id = s.entry id) {weight : Nat → CAddrInfo → Int}
    (blind : ∀ id info, weight id (anywhere info) = weight id info) : StdMap.sum weight s'.mapInfo = StdMap.sum weight s.mapInfo := by
  have weighed (s : CAddrMan) (id : Nat) : StdMap.weightAt weight s.mapInfo id = (s.entry id).elim 0 (weight id) := by
    rw [StdMap.weightAt, entry]
    cases s.mapInfo.lookup id with
    | none => rfl
    | some info => exact (blind id info).symm
  apply StdMap.sum_congr
  intro id
  rw [weighed, weighed, same]

theorem Ranged.of_entries (ranged : s.Ranged loose) (same : ∀ id, s'.entry id = s.entry id) : s'.Ranged loose := by
  constructor
  · intro id info found
    obtain ⟨_, found⟩ := of_entry (same id).symm found
    have fits := ranged.fits found
    exact ⟨fits.few, fits.success, fits.lastTry, fits.lastSuccess⟩
  · intro id info found untried
    obtain ⟨_, found⟩ := of_entry (same id).symm found
    have used := ranged.used found untried
    exact used

structure Shuffled (s s' : CAddrMan) : Prop where
  entries : ∀ id, s'.entry id = s.entry id
  length : s'.vRandom.length = s.vRandom.length
  key : s'.nKey = s.nKey
  ids : s'.nIdCount = s.nIdCount
  mapAddr : s'.mapAddr = s.mapAddr
  vvTried : s'.vvTried = s.vvTried
  nTried : s'.nTried = s.nTried
  vvNew : s'.vvNew = s.vvNew
  nNew : s'.nNew = s.nNew

theorem Shuffled.refl (s : CAddrMan) : Shuffled s s := ⟨fun _ => rfl, rfl, rfl, rfl, rfl, rfl, rfl, rfl, rfl⟩

theorem Valid.shuffled (valid : Valid k s loose uncounted) (shuffled : Shuffled s s')
    (indexed : Indexed s'.spots s.mapAddr.lookup s'.vRandom s.nIdCount) : Valid k s' loose uncounted := by
  constructor
  · rw [shuffled.mapAddr, shuffled.ids]
    exact indexed
  · rw [shuffled.key, seats_of_entries shuffled.entries, shuffled.vvTried, shuffled.vvNew]
    exact valid.slotted
  · exact valid.ranged.of_entries shuffled.entries
  · constructor
    · rw [shuffled.nNew, sum_of_entries shuffled.entries fun _ _ => rfl]
      exact valid.counted.new
    · rw [shuffled.nTried, sum_of_entries shuffled.entries fun _ _ => rfl]
      exact valid.counted.tried
    · rw [shuffled.length, sum_of_entries shuffled.entries fun _ _ => rfl]
      exact valid.counted.all

theorem spots_setInfo_update (s : CAddrMan) (id : Nat) (info : CAddrInfo) :
    (s.setInfo id info).spots = Function.update s.spots id (some info.spot) := by
  funext id'
  rw [spots, lookup_setInfo]
  by_cases same : id' = id
  · subst same
    rw [if_pos rfl, Function.update_self, Option.map_some]
  · rw [if_neg same, Function.update_of_ne same]
    rfl

theorem entry_setInfo (s : CAddrMan) (id : Nat) (info : CAddrInfo) (id' : Nat) :
    (s.setInfo id info).entry id' = if id' = id then some (anywhere info) else s.entry id' := by
  rw [entry, lookup_setInfo]
  split <;> rfl

section

variable (valid : Valid k s loose uncounted)

include valid

theorem Valid.listed (here : s.vRandom[p]? = some id) : ∃ info, s.mapInfo.lookup id = some info ∧ info.nRandomPos = p := by
  obtain ⟨spot, found, place⟩ := valid.indexed.listed here
  obtain ⟨info, found, same⟩ := of_spots found
  exact ⟨info, found, by rw [← place, ← same]; rfl⟩

theorem Valid.random (found : s.mapInfo.lookup id = some info) :
    s.vRandom[info.nRandomPos]? = some id := valid.indexed.random (spots_of found)

theorem swapRandom_spec (insideP : p < s.vRandom.length) (insideQ : q < s.vRandom.length) :
    ∃ s', s.swapRandom p q = some s' ∧ Valid k s' loose uncounted ∧ Shuffled s s' ∧ s'.vRandom[q]? = s.vRandom[p]? ∧
      ∀ n, n ≠ p → n ≠ q → s'.vRandom[n]? = s.vRandom[n]? := by
  by_cases apart : p = q
  · refine ⟨s, by rw [swapRandom, if_pos apart], valid, Shuffled.refl s, by rw [apart], fun _ _ _ => rfl⟩
  have first := List.getElem?_eq_getElem insideP
  have second := List.getElem?_eq_getElem insideQ
  generalize s.vRandom[p] = id1 at first
  generalize s.vRandom[q] = id2 at second
  obtain ⟨info1, found1, _⟩ := valid.listed first
  obtain ⟨info2, found2, _⟩ := valid.listed second
  let swapped := (s.setInfo id1 { info1 with nRandomPos := q }).setInfo id2 { info2 with nRandomPos := p }
  let s' : CAddrMan := { swapped with vRandom := (s.vRandom.set p id2).set q id1 }
  have swap : s.swapRandom p q = some s' := by
    rw [swapRandom, if_neg apart, first, second]
    simp only [Option.bind_eq_bind, Option.bind_some, found1, found2]
    rfl
  have entries (id : Nat) : s'.entry id = s.entry id := by
    show swapped.entry id = s.entry id
    rw [entry_setInfo, entry_setInfo]
    split
    · next same => rw [same, entry_of found2, anywhere, anywhere]
    · split
      · next same => rw [same, entry_of found1, anywhere, anywhere]
      · rfl
  have indexed : Indexed s'.spots s.mapAddr.lookup s'.vRandom s.nIdCount := by
    have moved := valid.indexed.swap first second apart (spots_of found1) (spots_of found2)
    have spots : s'.spots = Function.update (Function.update s.spots id1 (some { info1.spot with nRandomPos := q })) id2
        (some { info2.spot with nRandomPos := p }) := by
      show swapped.spots = _
      rw [spots_setInfo_update, spots_setInfo_update]
      rfl
    rw [spots]
    exact moved
  have shuffled : Shuffled s s' := ⟨entries, by simp [s'], rfl, rfl, rfl, rfl, rfl, rfl, rfl⟩
  refine ⟨s', swap, valid.shuffled shuffled indexed, shuffled, ?_, fun n notP notQ => ?_⟩
  · rw [first]
    exact List.getElem?_set_self (by simpa using insideQ)
  · show ((s.vRandom.set p id2).set q id1)[n]? = _
    rw [List.getElem?_set_ne (Ne.symm notQ), List.getElem?_set_ne (Ne.symm notP)]

theorem dropLast_valid (found : s.mapInfo.lookup id = some info) (untried : info.fInTried = false) (unused : info.nRefCount = 0)
    (last : info.nRandomPos = s.vRandom.length - 1) (same : infoGone.toCNetAddr = info.toCNetAddr)
    (others : ∀ id', id' ≠ id → loose id' → loose' id') : Valid k (s.dropLast id infoGone) loose' uncounted := by
  have lookup (id' : Nat) : (s.dropLast id infoGone).mapInfo.lookup id' = if id' = id then none else s.mapInfo.lookup id' :=
    StdMap.lookup_erase_ite ..
  have spots : (s.dropLast id infoGone).spots = Function.update s.spots id none := by
    funext id'
    rw [CAddrMan.spots, lookup]
    by_cases gone : id' = id
    · subst gone
      rw [if_pos rfl, Function.update_self]
      rfl
    · rw [if_neg gone, Function.update_of_ne gone]
      rfl
  have seats : (s.dropLast id infoGone).seats = Function.update s.seats id none := by
    funext id'
    rw [CAddrMan.seats, lookup]
    by_cases gone : id' = id
    · subst gone
      rw [if_pos rfl, Function.update_self]
      rfl
    · rw [if_neg gone, Function.update_of_ne gone]
      rfl
  have inside : info.nRandomPos < s.vRandom.length := (List.getElem?_eq_some_iff.mp (valid.random found)).1
  constructor
  · have addresses : (s.dropLast id infoGone).mapAddr.lookup = fun addr => if addr = info.spot.addr then none else s.mapAddr.lookup addr := by
      funext addr
      show (s.mapAddr.erase infoGone.toCNetAddr).lookup addr = _
      rw [StdMap.lookup_erase_ite, same]
      rfl
    rw [spots, addresses]
    exact valid.indexed.removeLast (spots_of found) last
  · rw [seats]
    exact valid.slotted.remove (seats_of found) untried unused
  · constructor
    · intro id' info' found'
      rw [lookup] at found'
      split at found'
      · cases found'
      · exact valid.ranged.fits found'
    · intro id' info' found' untried'
      rw [lookup] at found'
      split at found'
      · cases found'
      · next other => exact (valid.ranged.used found' untried').imp_left (others id' other)
  · have sum (weight : Nat → CAddrInfo → Int) : StdMap.sum weight s.mapInfo = weight id info + StdMap.sum weight (s.mapInfo.erase id) := by
      rw [StdMap.sum_erase weight s.mapInfo id, StdMap.weightAt, found, Option.elim_some]
    have new := valid.counted.new
    have tried := valid.counted.tried
    have all := valid.counted.all
    rw [sum] at new tried all
    simp only [newWeight, triedWeight, untried] at new tried
    constructor
    · show s.nNew - 1 + uncounted = StdMap.sum newWeight (s.mapInfo.erase id)
      simp only [Bool.false_eq_true, if_false] at new
      omega
    · show s.nTried = StdMap.sum triedWeight (s.mapInfo.erase id)
      simp only [Bool.false_eq_true, if_false] at tried
      omega
    · show ((s.vRandom.dropLast).length : Int) = StdMap.sum (fun _ _ => 1) (s.mapInfo.erase id)
      rw [List.length_dropLast]
      omega

theorem delete_spec (found : s.mapInfo.lookup id = some info) (untried : info.fInTried = false) (unused : info.nRefCount = 0)
    (others : ∀ id', id' ≠ id → loose id' → loose' id') :
    ∃ s', s.delete id = some s' ∧ Valid k s' loose' uncounted ∧ s'.nKey = s.nKey ∧ s'.vvTried = s.vvTried ∧ s'.vvNew = s.vvNew ∧
      ∀ id', id' ≠ id → s'.entry id' = s.entry id' := by
  have here := valid.random found
  have inside : info.nRandomPos < s.vRandom.length := (List.getElem?_eq_some_iff.mp here).1
  obtain ⟨moved, swap, valid', shuffled, last, _⟩ := swapRandom_spec valid inside (q := s.vRandom.length - 1) (by omega)
  obtain ⟨pos, found'⟩ := of_entry (shuffled.entries id) found
  have atEnd : pos = s.vRandom.length - 1 := by
    have there := valid'.random found'
    exact valid'.indexed.pos_unique there (last.trans here)
  have gone : s.delete id = some (moved.dropLast id info) := by
    rw [delete, found]
    simp only [Option.bind_eq_bind, Option.bind_some, untried, unused, swap]
    rfl
  refine ⟨_, gone, dropLast_valid valid' found' untried unused (by rw [shuffled.length]; exact atEnd) rfl others, shuffled.key,
    shuffled.vvTried, shuffled.vvNew, fun id' other => ?_⟩
  rw [← shuffled.entries id', entry, entry]
  show ((moved.mapInfo.erase id).lookup id').map _ = _
  rw [StdMap.lookup_erase_ite, if_neg other]

theorem Valid.reseat (found : s.mapInfo.lookup id = some info) (info' : CAddrInfo) (spot : info'.spot = info.spot)
    (fits : InRange info') {vvTried : Table ADDRMAN_TRIED_BUCKET_COUNT} {vvNew : Table ADDRMAN_NEW_BUCKET_COUNT}
    {nTried nNew : Int} (slotted : Slotted k s.nKey (Function.update s.seats id (some info'.seat)) vvTried vvNew)
    (here : info'.fInTried = false → loose' id ∨ 0 < info'.nRefCount) (others : ∀ id', id' ≠ id → loose id' → loose' id')
    (new : nNew + uncounted' - newWeight id info' = s.nNew + uncounted - newWeight id info)
    (tried : nTried - triedWeight id info' = s.nTried - triedWeight id info) :
    Valid k { s.setInfo id info' with vvTried := vvTried, vvNew := vvNew, nTried := nTried, nNew := nNew } loose' uncounted' := by
  constructor
  · have spots := spots_setInfo found spot
    show Indexed (s.setInfo id info').spots _ _ _
    rw [spots]
    exact valid.indexed
  · have seats := seats_setInfo s id info'
    show Slotted k s.nKey (s.setInfo id info').seats _ _
    rw [seats]
    exact slotted
  · have ranged := valid.ranged.set fits here others
    exact ⟨ranged.fits, ranged.used⟩
  · exact valid.counted.set found new tried rfl rfl

theorem Valid.held (here : s.vvNew b i = some id) :
    ∃ info, s.mapInfo.lookup id = some info ∧ info.fInTried = false ∧ i = s.newPos k info b ∧ 0 < info.nRefCount := by
  obtain ⟨seat, found, untried, place⟩ := valid.slotted.new here
  obtain ⟨info, present, rfl⟩ := of_seats found
  refine ⟨info, present, untried, place, ?_⟩
  have counted := valid.slotted.refs found
  rw [place] at here
  rw [Buckets.count_cleared here] at counted
  have positive : 0 < info.seat.nRefCount := by omega
  exact positive

theorem clearNew_spec (b : NewBucket) (i : BucketPosition) :
    ∃ s', s.clearNew b i = some s' ∧ Valid k s' loose uncounted ∧ s'.nKey = s.nKey ∧ s'.vvTried = s.vvTried ∧
      s'.vvNew = Buckets.set s.vvNew b i none ∧ ∀ id, s.vvNew b i ≠ some id → s'.entry id = s.entry id := by
  cases here : s.vvNew b i with
  | none => exact ⟨s, by rw [clearNew, here], valid, rfl, rfl, (Buckets.set_same here).symm, fun _ _ => rfl⟩
  | some id =>
    obtain ⟨info, found, untried, place, positive⟩ := valid.held here
    let infoLess := { info with nRefCount := info.nRefCount - 1 }
    let cleared := { s.setInfo id infoLess with vvNew := Buckets.set s.vvNew b i none }
    have clear : s.clearNew b i = if infoLess.nRefCount = 0 then cleared.delete id else some cleared := by
      rw [clearNew, here]
      simp only [found, Option.bind_eq_bind, Option.bind_some]
      rw [if_neg (by omega)]
    have fits := valid.ranged.fits found
    have few := fits.few
    have validCleared : Valid k cleared (fun x => loose x ∨ (x = id ∧ infoLess.nRefCount = 0)) uncounted := by
      refine valid.reseat found infoLess rfl ⟨?_, fits.success, fits.lastTry, fits.lastSuccess⟩ (valid.slotted.clear (seats_of found) here) (fun _ => ?_)
        (fun _ _ => Or.inl) rfl rfl
      · show info.nRefCount - 1 ≤ _
        omega
      · show (loose id ∨ (id = id ∧ info.nRefCount - 1 = 0)) ∨ 0 < info.nRefCount - 1
        by_cases last : info.nRefCount - 1 = 0
        · exact Or.inl (Or.inr ⟨rfl, last⟩)
        · right
          omega
    have entries {id' : Nat} (other : id' ≠ id) : cleared.entry id' = s.entry id' := by
      have kept := entry_setInfo s id infoLess id'
      rw [if_neg other] at kept
      exact kept
    rw [clear]
    by_cases last : infoLess.nRefCount = 0
    · have foundLess : cleared.mapInfo.lookup id = some infoLess := by
        show (s.mapInfo.insert id infoLess).lookup id = _
        rw [StdMap.lookup_insert_ite, if_pos rfl]
      have others : ∀ id', id' ≠ id → loose id' ∨ (id' = id ∧ infoLess.nRefCount = 0) → loose id' :=
        fun id' other held => held.resolve_right fun same => other same.1
      obtain ⟨s', gone, valid', key, triedTable, newTable, kept⟩ := delete_spec validCleared foundLess untried last others
      rw [if_pos last]
      refine ⟨s', gone, valid', key, triedTable, newTable, fun id' elsewhere => ?_⟩
      have other : id' ≠ id := fun same => elsewhere (same ▸ rfl)
      rw [kept id' other, entries other]
    · rw [if_neg last]
      refine ⟨cleared, rfl, ?_, rfl, rfl, rfl, fun id' elsewhere => entries fun same => elsewhere (same ▸ rfl)⟩
      have ranged := validCleared.ranged
      refine ⟨validCleared.indexed, validCleared.slotted, ⟨ranged.fits, fun found untried => ?_⟩, validCleared.counted⟩
      exact (ranged.used found untried).imp_left fun held => held.resolve_right fun same => last same.2

theorem insertNew_spec (found : s.mapInfo.lookup id = some info) (untried : info.fInTried = false)
    (few : info.nRefCount < ADDRMAN_NEW_BUCKETS_PER_ADDRESS) (elsewhere : s.vvNew b (s.newPos k info b) ≠ some id)
    (others : ∀ id', id' ≠ id → loose id' → loose' id') :
    ∃ s', s.insertNew id b (s.newPos k info b) = some s' ∧ Valid k s' loose' uncounted ∧ s'.nKey = s.nKey := by
  obtain ⟨cleared, clear, valid', key, _, newTable, kept⟩ := clearNew_spec valid b (s.newPos k info b)
  obtain ⟨pos, found'⟩ := of_entry (kept id elsewhere) found
  let infoMore := { info with nRandomPos := pos, nRefCount := info.nRefCount + 1 }
  have insert : s.insertNew id b (s.newPos k info b) = some { cleared.setInfo id infoMore with
      vvNew := Buckets.set cleared.vvNew b (s.newPos k info b) (some id) } := by
    rw [insertNew, clear]
    simp only [Option.bind_eq_bind, Option.bind_some, found']
    rfl
  refine ⟨_, insert, ?_, key⟩
  have fits := valid'.ranged.fits found'
  have nonnegative : 0 ≤ info.nRefCount := by
    have counted := valid'.slotted.refs (seats_of found')
    have counted : info.nRefCount = _ := counted
    omega
  have place : s.newPos k info b = k.newPlace cleared.nKey info.toCService b := by
    rw [key]
    rfl
  have empty : cleared.vvNew b (s.newPos k info b) = none := by rw [newTable, Buckets.set_self]
  have filled : Slotted k cleared.nKey (Function.update cleared.seats id (some infoMore.seat)) cleared.vvTried
      (Buckets.set cleared.vvNew b (s.newPos k info b) (some id)) := by
    rw [place] at empty ⊢
    exact valid'.slotted.fill (seats_of found') untried empty
  refine valid'.reseat found' infoMore rfl ⟨?_, fits.success, fits.lastTry, fits.lastSuccess⟩ filled (fun _ => Or.inr ?_) others rfl rfl
  · show info.nRefCount + 1 ≤ _
    omega
  · show 0 < info.nRefCount + 1
    omega

end

end CAddrMan

end SchillingCoin.Net
