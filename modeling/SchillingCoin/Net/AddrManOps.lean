import SchillingCoin.Net.AddrManTried

/-!
The operations of the address manager on a state without loose entries: none of them fails, and each leaves such a state.
-/

namespace SchillingCoin.Net

namespace CAddrMan

variable {k : AddrBuckets} {s : CAddrMan} {loose : Nat → Prop} {id : Nat} {info : CAddrInfo}

abbrev Settled (k : AddrBuckets) (s : CAddrMan) : Prop := Valid k s (fun _ => False) 0

theorem settled_empty (k : AddrBuckets) (nKey : uint256) : Settled k { nKey } :=
  ⟨indexed_empty, slotted_empty, ⟨nofun, nofun⟩, ⟨rfl, rfl, rfl⟩⟩

theorem Valid.settle (valid : Valid k s loose 0)
    (used : ∀ {id info}, loose id → s.mapInfo.lookup id = some info → info.fInTried = false → 0 < info.nRefCount) : Settled k s := by
  refine ⟨valid.indexed, valid.slotted, ⟨valid.ranged.fits, fun found untried => Or.inr ?_⟩, valid.counted⟩
  rcases valid.ranged.used found untried with held | positive
  · exact used held found untried
  · exact positive

theorem Valid.withLastGood (valid : Valid k s loose 0) (nTime : Int) : Valid k { s with nLastGood := nTime } loose 0 :=
  ⟨valid.indexed, valid.slotted, ⟨valid.ranged.fits, valid.ranged.used⟩, ⟨valid.counted.new, valid.counted.tried, valid.counted.all⟩⟩

theorem find_some (valid : Valid k s loose 0) (found : s.find addr = some (id, info)) :
    s.mapInfo.lookup id = some info ∧ info.toCNetAddr = addr := by
  obtain ⟨nId, named, found⟩ := Option.bind_eq_some_iff.mp found
  obtain ⟨info', here, found⟩ := Option.bind_eq_some_iff.mp found
  cases found
  obtain ⟨spot, present, same⟩ := valid.indexed.named named
  rw [spots_of here] at present
  cases present
  exact ⟨here, same⟩

theorem find_none (valid : Valid k s loose 0) (absent : s.find addr = none) : s.mapAddr.lookup addr = none := by
  cases named : s.mapAddr.lookup addr with
  | none => rfl
  | some nId =>
    obtain ⟨spot, present, _⟩ := valid.indexed.named named
    obtain ⟨info', here, _⟩ := of_spots present
    simp [find, named, here] at absent

theorem findService_some (valid : Valid k s loose 0) (found : s.findService addr = some (id, info)) :
    s.mapInfo.lookup id = some info := by
  obtain ⟨found, _⟩ := Option.filter_eq_some_iff.mp found
  exact (find_some valid found).1

theorem place_spec (found : s.mapInfo.lookup id = some info) (valid : Valid k s (fun x => x = id ∧ info.nRefCount = 0) 0)
    (untried : info.fInTried = false) (few : info.nRefCount < ADDRMAN_NEW_BUCKETS_PER_ADDRESS) (source : CNetAddr) (nNow : Int) :
    ∃ s', s.place k id source nNow = some s' ∧ Settled k s' ∧ s'.nKey = s.nKey := by
  have others : ∀ id', id' ≠ id → id' = id ∧ info.nRefCount = 0 → False := fun id' other same => other same.1
  have settled (used : 0 < info.nRefCount) : Settled k s := valid.settle fun held _ _ => by omega
  unfold place
  rw [found]
  simp only [Option.bind_eq_bind, Option.bind_some]
  cases there : s.vvNew (k.getNewBucket s.nKey info.toCNetAddr source) (s.newPos k info (k.getNewBucket s.nKey info.toCNetAddr source)) with
  | none => exact insertNew_spec valid found untried few (by rw [there]; nofun) others
  | some existing =>
    obtain ⟨infoExisting, foundExisting, _, _, positive⟩ := valid.held there
    by_cases same : existing = id
    · subst same
      rw [found] at foundExisting
      cases foundExisting
      exact ⟨s, if_pos rfl, settled positive, rfl⟩
    have elsewhere : s.vvNew (k.getNewBucket s.nKey info.toCNetAddr source)
        (s.newPos k info (k.getNewBucket s.nKey info.toCNetAddr source)) ≠ some id := by
      rw [there]
      exact fun equal => same (Option.some.inj equal)
    simp only [if_neg same, foundExisting, Option.bind_some]
    split
    · exact insertNew_spec valid found untried few elsewhere others
    · split
      · next unused =>
        obtain ⟨s', gone, valid', key, _⟩ := delete_spec valid found untried unused others
        exact ⟨s', gone, valid', key⟩
      · next used =>
        have counted : info.nRefCount = Buckets.count s.vvNew _ id := valid.slotted.refs (seats_of found)
        exact ⟨s, rfl, settled (by omega), rfl⟩

theorem create_spec (valid : Settled k s) (addr : CAddress) (fresh : s.find addr.toCNetAddr = none) (source : CNetAddr) :
    Valid k { s.create addr source with nNew := s.nNew + 1 } (fun x => x = s.nIdCount ∧ (0 : Int) = 0) 0 ∧
      ({ s.create addr source with nNew := s.nNew + 1 } : CAddrMan).mapInfo.lookup s.nIdCount =
        some { addr with source, nRandomPos := s.vRandom.length } := by
  let made : CAddrInfo := { addr with source, nRandomPos := s.vRandom.length }
  have absent : s.mapInfo.lookup s.nIdCount = none := by
    cases here : s.mapInfo.lookup s.nIdCount with
    | none => rfl
    | some info' => exact absurd (valid.indexed.ids (spots_of here)) (Nat.lt_irrefl _)
  have lookup (id : Nat) : (s.create addr source).mapInfo.lookup id = if id = s.nIdCount then some made else s.mapInfo.lookup id :=
    StdMap.lookup_insert_ite ..
  have spots : (s.create addr source).spots = Function.update s.spots s.nIdCount (some made.spot) := by
    funext id
    rw [CAddrMan.spots, lookup]
    by_cases same : id = s.nIdCount
    · subst same
      rw [if_pos rfl, Function.update_self, Option.map_some]
    · rw [if_neg same, Function.update_of_ne same]
      rfl
  have seats : (s.create addr source).seats = Function.update s.seats s.nIdCount (some made.seat) := by
    funext id
    rw [CAddrMan.seats, lookup]
    by_cases same : id = s.nIdCount
    · subst same
      rw [if_pos rfl, Function.update_self, Option.map_some]
    · rw [if_neg same, Function.update_of_ne same]
      rfl
  have addresses : (s.create addr source).mapAddr.lookup =
      fun addr' => if addr' = addr.toCNetAddr then some s.nIdCount else s.mapAddr.lookup addr' := by
    funext addr'
    exact StdMap.lookup_insert_ite ..
  refine ⟨⟨?_, ?_, ⟨?_, ?_⟩, ?_⟩, (lookup s.nIdCount).trans (if_pos rfl)⟩
  · show Indexed (s.create addr source).spots (s.create addr source).mapAddr.lookup _ _
    rw [spots, addresses]
    exact valid.indexed.append (find_none valid fresh)
  · show Slotted k s.nKey (s.create addr source).seats _ _
    rw [seats]
    exact valid.slotted.add (by rw [CAddrMan.seats, absent]; rfl) made.toCService
  · intro id info found
    have found : (s.create addr source).mapInfo.lookup id = some info := found
    rw [lookup] at found
    split at found
    · cases found
      have few : (0 : Int) ≤ ADDRMAN_NEW_BUCKETS_PER_ADDRESS := by decide
      exact ⟨few, (fun tried => by cases tried), Int.le_refl 0, Int.le_refl 0⟩
    · exact valid.ranged.fits found
  · intro id info found untried
    have found : (s.create addr source).mapInfo.lookup id = some info := found
    rw [lookup] at found
    split at found
    · next same => exact Or.inl ⟨same, rfl⟩
    · exact (valid.ranged.used found untried).imp_left False.elim
  · have new := valid.counted.new
    have tried := valid.counted.tried
    have all := valid.counted.all
    have sum (weight : Nat → CAddrInfo → Int) : StdMap.sum weight (s.create addr source).mapInfo =
        weight s.nIdCount made + StdMap.sum weight s.mapInfo := StdMap.sum_insert_absent weight made absent
    constructor
    · show s.nNew + 1 + 0 = StdMap.sum newWeight (s.create addr source).mapInfo
      have one : newWeight s.nIdCount made = 1 := rfl
      rw [sum, one]
      omega
    · show s.nTried = StdMap.sum triedWeight (s.create addr source).mapInfo
      have zero : triedWeight s.nIdCount made = 0 := rfl
      rw [sum, zero]
      omega
    · show ((s.vRandom ++ [s.nIdCount]).length : Int) = StdMap.sum (fun _ _ => 1) (s.create addr source).mapInfo
      rw [sum, List.length_append, List.length_singleton]
      omega

theorem add_spec (valid : Settled k s) (addr : CAddress) (source : CNetAddr) (nTimePenalty : Int) (draws : AddDraws) :
    ∃ fNew s', s.add_ k addr source nTimePenalty draws = some (fNew, s') ∧ Settled k s' ∧ s'.nKey = s.nKey := by
  unfold add_
  split
  · exact ⟨false, s, rfl, valid, rfl⟩
  split
  · next nId info found =>
    obtain ⟨here, _⟩ := find_some valid found
    have fits := valid.ranged.fits here
    let seen := CAddrInfo.seen info addr nTimePenalty draws.nNow
    have valid' : Settled k (s.setInfo nId seen) :=
      valid.setInfo here rfl rfl ⟨fits.few, fits.success, fits.lastTry, fits.lastSuccess⟩
    have kept : ∃ fNew s', some (false, s.setInfo nId seen) = some (fNew, s') ∧ Settled k s' ∧ s'.nKey = s.nKey :=
      ⟨false, s.setInfo nId seen, rfl, valid', rfl⟩
    simp only
    split
    · exact kept
    split
    · exact kept
    next untried =>
    split
    · exact kept
    next below =>
    split
    · exact kept
    have here' : (s.setInfo nId seen).mapInfo.lookup nId = some seen := by rw [lookup_setInfo, if_pos rfl]
    have few := fits.few
    have below : info.nRefCount ≠ ADDRMAN_NEW_BUCKETS_PER_ADDRESS := below
    have less : seen.nRefCount < ADDRMAN_NEW_BUCKETS_PER_ADDRESS := by
      show info.nRefCount < _
      omega
    have loose : Valid k (s.setInfo nId seen) (fun x => x = nId ∧ seen.nRefCount = 0) 0 :=
      ⟨valid'.indexed, valid'.slotted, ⟨valid'.ranged.fits, fun found untried => (valid'.ranged.used found untried).imp_left False.elim⟩,
        valid'.counted⟩
    obtain ⟨s', placed, settled, key⟩ := place_spec here' loose (by simpa using untried) less source draws.nNowTerrible
    exact ⟨false, s', Option.map_eq_some_iff.mpr ⟨s', placed, rfl⟩, settled, key⟩
  · next fresh =>
    obtain ⟨valid', here⟩ :=
      create_spec valid { addr with nTime := (max 0 ((addr.nTime : Int) - nTimePenalty) % 2 ^ 32).toNat } fresh source
    have few : (0 : Int) < ADDRMAN_NEW_BUCKETS_PER_ADDRESS := by decide
    obtain ⟨s', placed, settled, key⟩ := place_spec here valid' rfl few source draws.nNowTerrible
    exact ⟨true, s', Option.map_eq_some_iff.mpr ⟨s', placed, rfl⟩, settled, key⟩

theorem good_spec (valid : Settled k s) (addr : CService) (positive : 0 < nTime) (nRnd : Nat) :
    ∃ s', s.good_ k addr nTime nRnd = some s' ∧ Settled k s' ∧ s'.nKey = s.nKey := by
  have valid := valid.withLastGood nTime
  unfold good_
  simp only
  split
  · exact ⟨_, rfl, valid, rfl⟩
  · next nId info found =>
    have here := findService_some valid found
    have fits := valid.ranged.fits here
    have tried : InRange { info with nLastSuccess := nTime, nLastTry := nTime, nAttempts := 0 } :=
      ⟨fits.few, fun _ => by dsimp only; omega, by dsimp only; omega, by dsimp only; omega⟩
    have valid' : Settled k (CAddrMan.setInfo { s with nLastGood := nTime } nId
        { info with nLastSuccess := nTime, nLastTry := nTime, nAttempts := 0 }) := valid.setInfo here rfl rfl tried
    split
    · exact ⟨_, rfl, valid', rfl⟩
    next untried =>
    split
    · obtain ⟨s', made, settled, key⟩ := makeTried_spec valid' (by rw [lookup_setInfo, if_pos rfl]) (by simpa using untried)
        (by dsimp only; omega)
      exact ⟨s', made, settled, key⟩
    · exact ⟨_, rfl, valid', rfl⟩

theorem attempt_spec (valid : Settled k s) (addr : CService) (fCountFailure : Bool) (nonneg : 0 ≤ nTime) :
    Settled k (s.attempt_ addr fCountFailure nTime) ∧ (s.attempt_ addr fCountFailure nTime).nKey = s.nKey := by
  unfold attempt_
  split
  · exact ⟨valid, rfl⟩
  · next nId info found =>
    have here := findService_some valid found
    have fits := valid.ranged.fits here
    split
    · exact ⟨valid.setInfo here rfl rfl ⟨fits.few, fits.success, nonneg, fits.lastSuccess⟩, rfl⟩
    · exact ⟨valid.setInfo here rfl rfl ⟨fits.few, fits.success, nonneg, fits.lastSuccess⟩, rfl⟩

theorem connected_spec (valid : Settled k s) (addr : CService) (nTime : Int) :
    Settled k (s.connected_ addr nTime) ∧ (s.connected_ addr nTime).nKey = s.nKey := by
  unfold connected_
  split
  · exact ⟨valid, rfl⟩
  · next nId info found =>
    have here := findService_some valid found
    have fits := valid.ranged.fits here
    split
    · exact ⟨valid.setInfo here rfl rfl ⟨fits.few, fits.success, fits.lastTry, fits.lastSuccess⟩, rfl⟩
    · exact ⟨valid, rfl⟩

theorem selectFrom_spec {table : Table n} (known : ∀ b i id, table b i = some id → ∃ info, s.mapInfo.lookup id = some info)
    (looks : List (Look n)) : ∃ found, s.selectFrom table looks = some found := by
  induction looks with
  | nil => exact ⟨none, rfl⟩
  | cons look looks ih =>
    unfold selectFrom
    cases here : table look.nBucket look.nPos with
    | none => exact ih
    | some nId =>
      obtain ⟨info, found⟩ := known _ _ _ here
      simp only [found, Option.bind_eq_bind, Option.bind_some]
      split
      · exact ⟨some info, rfl⟩
      · exact ih

theorem select_spec (valid : Settled k s) (newOnly : Bool) (draws : SelectDraws) : ∃ found, s.select_ newOnly draws = some found := by
  unfold select_
  split
  · exact ⟨none, rfl⟩
  split
  · exact ⟨none, rfl⟩
  split
  · refine selectFrom_spec (fun b i id here => ?_) draws.triedLooks
    obtain ⟨seat, found, _⟩ := valid.slotted.tried here
    obtain ⟨info, present, _⟩ := of_seats found
    exact ⟨info, present⟩
  · refine selectFrom_spec (fun b i id here => ?_) draws.newLooks
    obtain ⟨info, present, _⟩ := valid.held here
    exact ⟨info, present⟩

/-- An address of an entry before position `n` of the list, which was good enough when it was found there. -/
def Gathered (s : CAddrMan) (nNow : Nat → Int) (n : Nat) (ai : CAddrInfo) : Prop :=
  ∃ m id, m < n ∧ s.vRandom[m]? = some id ∧ s.mapAddr.lookup ai.toCNetAddr = some id ∧ ai.isTerrible (nNow m) = false

theorem Gathered.later (gathered : s.Gathered nNow n ai) {s' : CAddrMan} (addresses : s'.mapAddr = s.mapAddr)
    (kept : ∀ m, m < n → s'.vRandom[m]? = s.vRandom[m]?) : s'.Gathered nNow (n + 1) ai := by
  obtain ⟨m, id, before, here, named, well⟩ := gathered
  refine ⟨m, id, by omega, ?_, ?_, well⟩
  · rw [kept m before, here]
  · rw [addresses, named]

theorem getAddrFrom_spec (nNodes : Nat) (draw : Nat → Nat) (nNow : Nat → Int) (left : Nat) :
    ∀ (n : Nat) (s : CAddrMan) (vAddr : List CAddrInfo), Settled k s → n + left = s.vRandom.length →
      (vAddr.map fun ai => ai.toCNetAddr).Nodup → (∀ ai ∈ vAddr, s.Gathered nNow n ai) →
      ∃ s' vAddr', getAddrFrom nNodes draw nNow left n s vAddr = some (s', vAddr') ∧ Settled k s' ∧ s'.nKey = s.nKey ∧
        (vAddr'.map fun ai => ai.toCNetAddr).Nodup ∧ ∀ ai ∈ vAddr', ∃ m, ai.isTerrible (nNow m) = false := by
  have done {n : Nat} {s : CAddrMan} {vAddr : List CAddrInfo} (gathered : ∀ ai ∈ vAddr, s.Gathered nNow n ai) :
      ∀ ai ∈ vAddr, ∃ m, ai.isTerrible (nNow m) = false := by
    intro ai member
    obtain ⟨m, _, _, _, _, well⟩ := gathered ai member
    exact ⟨m, well⟩
  induction left with
  | zero =>
    intro n s vAddr valid _ distinct gathered
    exact ⟨s, vAddr, rfl, valid, rfl, distinct, done gathered⟩
  | succ left ih =>
    intro n s vAddr valid length distinct gathered
    unfold getAddrFrom
    split
    · exact ⟨s, vAddr, rfl, valid, rfl, distinct, done gathered⟩
    have drawn : draw n % (s.vRandom.length - n) < s.vRandom.length - n := Nat.mod_lt _ (by omega)
    obtain ⟨swapped, swap, valid', shuffled, _, kept⟩ :=
      swapRandom_spec valid (p := n) (q := draw n % (s.vRandom.length - n) + n) (by omega) (by omega)
    have length' : n + 1 + left = swapped.vRandom.length := by
      rw [shuffled.length]
      omega
    have inside : n < swapped.vRandom.length := by omega
    have here := List.getElem?_eq_getElem inside
    generalize swapped.vRandom[n] = nId at here
    obtain ⟨info, found, _⟩ := valid'.listed here
    have gathered' : ∀ ai ∈ vAddr, swapped.Gathered nNow (n + 1) ai := fun ai member =>
      (gathered ai member).later shuffled.mapAddr fun m before => kept m (by omega) (by omega)
    simp only [swap, here, found, Option.bind_eq_bind, Option.bind_some]
    split
    · obtain ⟨s', vAddr', rest, settled, key, good⟩ := ih (n + 1) swapped vAddr valid' length' distinct gathered'
      exact ⟨s', vAddr', rest, settled, key.trans shuffled.key, good⟩
    · next well =>
      have named : swapped.mapAddr.lookup info.toCNetAddr = some nId := valid'.indexed.addr (spots_of found)
      have distinct' : ((vAddr ++ [info]).map fun ai => ai.toCNetAddr).Nodup := by
        rw [List.map_append, List.map_singleton, List.nodup_append]
        refine ⟨distinct, List.nodup_singleton _, ?_⟩
        rintro addr listed _ last same
        obtain ⟨ai, member, rfl⟩ := List.mem_map.mp listed
        rw [List.mem_singleton.mp last] at same
        -- an entry that is gathered has an earlier position
        obtain ⟨m, id, before, at_, address, _⟩ := gathered ai member
        rw [← kept m (by omega) (by omega)] at at_
        rw [← shuffled.mapAddr, same, named] at address
        cases address
        have position := valid'.indexed.pos_unique at_ here
        omega
      have gatheredHere : ∀ ai ∈ vAddr ++ [info], swapped.Gathered nNow (n + 1) ai := by
        intro ai member
        rcases List.mem_append.mp member with member | last
        · exact gathered' ai member
        · rw [List.mem_singleton.mp last]
          exact ⟨n, nId, Nat.lt_succ_self n, here, named, by simpa using well⟩
      obtain ⟨s', vAddr', rest, settled, key, good⟩ := ih (n + 1) swapped (vAddr ++ [info]) valid' length' distinct' gatheredHere
      exact ⟨s', vAddr', rest, settled, key.trans shuffled.key, good⟩

theorem getAddr_spec (valid : Settled k s) (draw : Nat → Nat) (nNow : Nat → Int) :
    ∃ s' vAddr, s.getAddr_ draw nNow = some (s', vAddr) ∧ Settled k s' ∧ s'.nKey = s.nKey ∧
      (vAddr.map fun ai => ai.toCNetAddr).Nodup ∧ ∀ ai ∈ vAddr, ∃ n, ai.isTerrible (nNow n) = false :=
  getAddrFrom_spec _ draw nNow _ 0 s [] valid (Nat.zero_add _) List.nodup_nil nofun

end CAddrMan

end SchillingCoin.Net
