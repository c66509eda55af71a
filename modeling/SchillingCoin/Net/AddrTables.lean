import SchillingCoin.Net.AddrMan
import Mathlib.Logic.Function.Basic

/-!
The indexes of the address manager, apart from the entries themselves: places in the tables with their counts, and positions in the random
list with the ids of addresses.
-/

namespace SchillingCoin.Net

structure Seat where
  service : CService
  fInTried : Bool
  nRefCount : Int

def CAddrInfo.seat (info : CAddrInfo) : Seat := ⟨info.toCService, info.fInTried, info.nRefCount⟩

section Tables

variable (k : AddrBuckets) (nKey : uint256)

def AddrBuckets.newPlace (service : CService) (b : NewBucket) : BucketPosition := k.getBucketPosition nKey true b service

def AddrBuckets.triedPlace (service : CService) : BucketPosition :=
  k.getBucketPosition nKey false (k.getTriedBucket nKey service) service

structure Slotted (seats : Nat → Option Seat) (vvTried : Table ADDRMAN_TRIED_BUCKET_COUNT) (vvNew : Table ADDRMAN_NEW_BUCKET_COUNT) :
    Prop where
  slot : ∀ {id seat}, seats id = some seat → seat.fInTried = true →
    vvTried (k.getTriedBucket nKey seat.service) (k.triedPlace nKey seat.service) = some id
  tried : ∀ {b i id}, vvTried b i = some id → ∃ seat, seats id = some seat ∧ seat.fInTried = true ∧
    b = k.getTriedBucket nKey seat.service ∧ i = k.triedPlace nKey seat.service
  new : ∀ {b i id}, vvNew b i = some id → ∃ seat, seats id = some seat ∧ seat.fInTried = false ∧ i = k.newPlace nKey seat.service b
  refs : ∀ {id seat}, seats id = some seat → seat.nRefCount = Buckets.count vvNew (k.newPlace nKey seat.service) id

variable {k nKey} {seats : Nat → Option Seat} {vvTried : Table ADDRMAN_TRIED_BUCKET_COUNT} {vvNew : Table ADDRMAN_NEW_BUCKET_COUNT}
  {id : Nat} {seat : Seat}

theorem slotted_empty : Slotted k nKey (fun _ => none) (fun _ _ => none) fun _ _ => none := ⟨nofun, nofun, nofun, nofun⟩

namespace Slotted

variable {b : NewBucket} {i : BucketPosition} {vvNew' : Table ADDRMAN_NEW_BUCKET_COUNT}

section

variable (slotted : Slotted k nKey seats vvTried vvNew)

include slotted

theorem place_of_new (found : seats id = some seat) (here : vvNew b i = some id) :
    seat.fInTried = false ∧ i = k.newPlace nKey seat.service b := by
  obtain ⟨_, found', facts⟩ := slotted.new here
  rw [found] at found'
  cases found'
  exact facts

theorem place_of_tried (found : seats id = some seat) {b : TriedBucket} (here : vvTried b i = some id) :
    seat.fInTried = true ∧ b = k.getTriedBucket nKey seat.service ∧ i = k.triedPlace nKey seat.service := by
  obtain ⟨_, found', facts⟩ := slotted.tried here
  rw [found] at found'
  cases found'
  exact facts

theorem absent_new (found : seats id = some seat) (unused : seat.nRefCount = 0) (b : NewBucket) (i : BucketPosition) :
    vvNew b i ≠ some id := by
  intro here
  have counted := slotted.refs found
  have none_ : Buckets.count vvNew (k.newPlace nKey seat.service) id = 0 := by omega
  exact Buckets.count_eq_zero.mp none_ b ((slotted.place_of_new found here).2 ▸ here)

theorem tried_unused (found : seats id = some seat) (tried : seat.fInTried = true) : seat.nRefCount = 0 := by
  have none_ : Buckets.count vvNew (k.newPlace nKey seat.service) id = 0 := by
    refine Buckets.count_eq_zero.mpr fun b here => ?_
    exact nomatch (slotted.place_of_new found here).1.symm.trans tried
  rw [slotted.refs found, none_]
  rfl

theorem absent_tried (found : seats id = some seat) (untried : seat.fInTried = false) (b : TriedBucket) (i : BucketPosition) :
    vvTried b i ≠ some id := by
  intro here
  exact nomatch untried.symm.trans (slotted.place_of_tried found here).1

theorem update {seat' : Option Seat}
    (slot : ∀ seat, seat' = some seat → seat.fInTried = true → vvTried' (k.getTriedBucket nKey seat.service) (k.triedPlace nKey seat.service) = some id)
    (tried : ∀ b i, vvTried' b i = some id → ∃ seat, seat' = some seat ∧ seat.fInTried = true ∧ b = k.getTriedBucket nKey seat.service ∧ i = k.triedPlace nKey seat.service)
    (new : ∀ b i, vvNew' b i = some id → ∃ seat, seat' = some seat ∧ seat.fInTried = false ∧ i = k.newPlace nKey seat.service b)
    (refs : ∀ seat, seat' = some seat → seat.nRefCount = Buckets.count vvNew' (k.newPlace nKey seat.service) id)
    (othersTried : ∀ x, x ≠ id → ∀ b i, vvTried' b i = some x ↔ vvTried b i = some x)
    (othersNew : ∀ x, x ≠ id → ∀ b i, vvNew' b i = some x ↔ vvNew b i = some x) :
    Slotted k nKey (Function.update seats id seat') vvTried' vvNew' := by
  constructor
  · intro x seat found isTried
    by_cases same : x = id
    · subst same
      exact slot seat (by rw [← found, Function.update_self]) isTried
    · rw [Function.update_of_ne same] at found
      exact (othersTried x same _ _).mpr (slotted.slot found isTried)
  · intro b i x here
    by_cases same : x = id
    · subst same
      rw [Function.update_self]
      exact tried b i here
    · rw [Function.update_of_ne same]
      exact slotted.tried ((othersTried x same b i).mp here)
  · intro b i x here
    by_cases same : x = id
    · subst same
      rw [Function.update_self]
      exact new b i here
    · rw [Function.update_of_ne same]
      exact slotted.new ((othersNew x same b i).mp here)
  · intro x seat found
    by_cases same : x = id
    · subst same
      exact refs seat (by rw [← found, Function.update_self])
    · rw [Function.update_of_ne same] at found
      rw [slotted.refs found, Buckets.count_congr fun b => othersNew x same b _]

theorem recount (found : seats id = some seat) (untried : seat.fInTried = false)
    (own : ∀ b i, vvNew' b i = some id → i = k.newPlace nKey seat.service b)
    (others : ∀ x, x ≠ id → ∀ b i, vvNew' b i = some x ↔ vvNew b i = some x) {n : Int}
    (counted : n = Buckets.count vvNew' (k.newPlace nKey seat.service) id) :
    Slotted k nKey (Function.update seats id (some { seat with nRefCount := n })) vvTried vvNew' := by
  refine slotted.update ?_ ?_ ?_ ?_ (fun _ _ _ _ => Iff.rfl) others
  · intro _ made tried
    cases made
    exact nomatch untried.symm.trans tried
  · exact fun b i here => absurd here (slotted.absent_tried found untried b i)
  · exact fun b i here => ⟨_, rfl, untried, own b i here⟩
  · intro _ made
    cases made
    exact counted

theorem clear (found : seats id = some seat) (here : vvNew b i = some id) :
    Slotted k nKey (Function.update seats id (some { seat with nRefCount := seat.nRefCount - 1 })) vvTried (Buckets.set vvNew b i none) := by
  obtain ⟨untried, place⟩ := slotted.place_of_new found here
  refine slotted.recount found untried ?_ ?_ ?_
  · exact fun b' i' there => (slotted.place_of_new found (Buckets.of_set there nofun).1).2
  · intro x other
    refine Buckets.set_eq_some_iff ?_ nofun
    rw [here]
    exact fun equal => other (Option.some.inj equal).symm
  · subst place
    have before := slotted.refs found
    rw [Buckets.count_cleared here] at before
    omega

theorem fill (found : seats id = some seat) (untried : seat.fInTried = false)
    (empty : vvNew b (k.newPlace nKey seat.service b) = none) :
    Slotted k nKey (Function.update seats id (some { seat with nRefCount := seat.nRefCount + 1 })) vvTried
      (Buckets.set vvNew b (k.newPlace nKey seat.service b) (some id)) := by
  refine slotted.recount found untried ?_ ?_ ?_
  · intro b' i' there
    rw [Buckets.set_apply] at there
    split at there
    · next spot => rw [spot.1, spot.2]
    · exact (slotted.place_of_new found there).2
  · exact fun x other => Buckets.set_eq_some_iff (by rw [empty]; nofun) fun equal => other (Option.some.inj equal).symm
  · have before := slotted.refs found
    rw [Buckets.count_filled empty]
    omega

theorem forget (found : seats id = some seat) (untried : seat.fInTried = false)
    (left : ∀ b i x, vvNew' b i = some x ↔ vvNew b i = some x ∧ x ≠ id) :
    Slotted k nKey (Function.update seats id (some { seat with nRefCount := 0 })) vvTried vvNew' := by
  have gone : ∀ b i, vvNew' b i ≠ some id := fun b i there => ((left b i id).mp there).2 rfl
  refine slotted.recount found untried (fun b i there => absurd there (gone b i)) ?_ ?_
  · exact fun x other b i => (left b i x).trans (and_iff_left other)
  · rw [Buckets.count_eq_zero.mpr fun b => gone b _]
    rfl

theorem update_unused (absent : ∀ b i, vvNew b i ≠ some id) (away : ∀ b i, vvTried b i ≠ some id)
    (unused : ∀ seat, seat' = some seat → seat.fInTried = false ∧ seat.nRefCount = 0) :
    Slotted k nKey (Function.update seats id seat') vvTried vvNew := by
  refine slotted.update ?_ (fun b i here => absurd here (away b i)) (fun b i here => absurd here (absent b i)) ?_
    (fun _ _ _ _ => Iff.rfl) fun _ _ _ _ => Iff.rfl
  · exact fun seat made tried => nomatch (unused seat made).1.symm.trans tried
  · intro seat made
    rw [(unused seat made).2, Buckets.count_eq_zero.mpr fun b => absent b _]
    rfl

theorem remove (found : seats id = some seat) (untried : seat.fInTried = false) (unused : seat.nRefCount = 0) :
    Slotted k nKey (Function.update seats id none) vvTried vvNew :=
  slotted.update_unused (slotted.absent_new found unused) (slotted.absent_tried found untried) nofun

theorem add (fresh : seats id = none) (service : CService) :
    Slotted k nKey (Function.update seats id (some ⟨service, false, 0⟩)) vvTried vvNew := by
  refine slotted.update_unused (fun b i there => ?_) (fun b i there => ?_) fun seat made => by cases made; exact ⟨rfl, rfl⟩
  · obtain ⟨seat, found, _⟩ := slotted.new there
    rw [fresh] at found
    cases found
  · obtain ⟨seat, found, _⟩ := slotted.tried there
    rw [fresh] at found
    cases found

theorem untry (found : seats id = some seat) {b : TriedBucket} (here : vvTried b i = some id) :
    Slotted k nKey (Function.update seats id (some { seat with fInTried := false })) (Buckets.set vvTried b i none) vvNew := by
  obtain ⟨tried, bucket, place⟩ := slotted.place_of_tried found here
  have unused := slotted.tried_unused found tried
  refine slotted.update ?_ ?_ (fun b' i' there => absurd there (slotted.absent_new found unused b' i')) ?_ ?_ fun _ _ _ _ => Iff.rfl
  · intro _ made tried
    cases made
    exact nomatch tried
  · intro b' i' there
    obtain ⟨there, elsewhere⟩ := Buckets.of_set there nofun
    obtain ⟨_, bucket', place'⟩ := slotted.place_of_tried found there
    exact absurd ⟨bucket'.trans bucket.symm, place'.trans place.symm⟩ elsewhere
  · intro _ made
    cases made
    have counted := slotted.refs found
    exact counted
  · intro x other
    refine Buckets.set_eq_some_iff ?_ nofun
    rw [here]
    exact fun equal => other (Option.some.inj equal).symm

theorem enter (found : seats id = some seat) (untried : seat.fInTried = false) (unused : seat.nRefCount = 0)
    (empty : vvTried (k.getTriedBucket nKey seat.service) (k.triedPlace nKey seat.service) = none) :
    Slotted k nKey (Function.update seats id (some { seat with fInTried := true }))
      (Buckets.set vvTried (k.getTriedBucket nKey seat.service) (k.triedPlace nKey seat.service) (some id)) vvNew := by
  refine slotted.update ?_ ?_ (fun b i there => absurd there (slotted.absent_new found unused b i)) ?_ ?_ fun _ _ _ _ => Iff.rfl
  · intro _ made _
    cases made
    exact Buckets.set_self ..
  · intro b i there
    rw [Buckets.set_apply] at there
    split at there
    · next spot => exact ⟨_, rfl, rfl, spot⟩
    · exact absurd there (slotted.absent_tried found untried b i)
  · intro _ made
    cases made
    have counted := slotted.refs found
    exact counted
  · exact fun x other => Buckets.set_eq_some_iff (by rw [empty]; nofun) fun equal => other (Option.some.inj equal).symm

end

end Slotted

end Tables

structure Spot where
  addr : CNetAddr
  nRandomPos : Nat

def CAddrInfo.spot (info : CAddrInfo) : Spot := ⟨info.toCNetAddr, info.nRandomPos⟩

structure Indexed (spots : Nat → Option Spot) (mapAddr : CNetAddr → Option Nat) (vRandom : List Nat) (nIdCount : Nat) : Prop where
  ids : ∀ {id spot}, spots id = some spot → id < nIdCount
  random : ∀ {id spot}, spots id = some spot → vRandom[spot.nRandomPos]? = some id
  listed : ∀ {pos id}, vRandom[pos]? = some id → ∃ spot, spots id = some spot ∧ spot.nRandomPos = pos
  addr : ∀ {id spot}, spots id = some spot → mapAddr spot.addr = some id
  named : ∀ {addr id}, mapAddr addr = some id → ∃ spot, spots id = some spot ∧ spot.addr = addr

theorem indexed_empty : Indexed (fun _ => none) (fun _ => none) [] 0 := ⟨nofun, nofun, nofun, nofun, nofun⟩

namespace Indexed

variable {spots : Nat → Option Spot} {mapAddr : CNetAddr → Option Nat} {vRandom : List Nat} {nIdCount : Nat}

variable {id : Nat}

section

variable (indexed : Indexed spots mapAddr vRandom nIdCount)

include indexed

theorem pos_unique {p : Nat} (first : vRandom[p]? = some id) (second : vRandom[q]? = some id) : p = q := by
  obtain ⟨spot, found, here⟩ := indexed.listed first
  obtain ⟨spot', found', there⟩ := indexed.listed second
  rw [found] at found'
  cases found'
  exact here.symm.trans there

theorem addr_unique (found : spots id = some spot) (found' : spots id' = some spot') (same : spot.addr = spot'.addr) : id = id' := by
  have first := indexed.addr found
  rw [same, indexed.addr found'] at first
  exact (Option.some.inj first).symm

theorem swap {spot1 : Spot} (first : vRandom[p]? = some id1) (second : vRandom[q]? = some id2) (apart : p ≠ q)
    (found1 : spots id1 = some spot1) (found2 : spots id2 = some spot2) :
    Indexed (Function.update (Function.update spots id1 (some { spot1 with nRandomPos := q })) id2 (some { spot2 with nRandomPos := p }))
      mapAddr ((vRandom.set p id2).set q id1) nIdCount := by
  have ids : id1 ≠ id2 := fun same => apart (indexed.pos_unique first (same ▸ second))
  have insideP : p < vRandom.length := (List.getElem?_eq_some_iff.mp first).1
  have insideQ : q < vRandom.length := (List.getElem?_eq_some_iff.mp second).1
  have at1 : Function.update (Function.update spots id1 (some { spot1 with nRandomPos := q })) id2
      (some { spot2 with nRandomPos := p }) id1 = some { spot1 with nRandomPos := q } := by
    rw [Function.update_of_ne ids, Function.update_self]
  have at2 : Function.update (Function.update spots id1 (some { spot1 with nRandomPos := q })) id2
      (some { spot2 with nRandomPos := p }) id2 = some { spot2 with nRandomPos := p } := Function.update_self ..
  have other {id : Nat} (not1 : id ≠ id1) (not2 : id ≠ id2) : Function.update (Function.update spots id1 (some { spot1 with nRandomPos := q })) id2
      (some { spot2 with nRandomPos := p }) id = spots id := by
    rw [Function.update_of_ne not2, Function.update_of_ne not1]
  generalize Function.update (Function.update spots id1 _) id2 _ = spots' at *
  have entry {id : Nat} {spot : Spot} (found : spots' id = some spot) :
      (id = id1 ∧ spot = { spot1 with nRandomPos := q }) ∨ (id = id2 ∧ spot = { spot2 with nRandomPos := p }) ∨
        (id ≠ id1 ∧ id ≠ id2 ∧ spots id = some spot) := by
    by_cases is1 : id = id1
    · subst is1
      rw [at1] at found
      exact Or.inl ⟨rfl, (Option.some.inj found).symm⟩
    by_cases is2 : id = id2
    · subst is2
      rw [at2] at found
      exact Or.inr (Or.inl ⟨rfl, (Option.some.inj found).symm⟩)
    rw [other is1 is2] at found
    exact Or.inr (Or.inr ⟨is1, is2, found⟩)
  have list (pos : Nat) : ((vRandom.set p id2).set q id1)[pos]? = if pos = q then some id1 else if pos = p then some id2 else vRandom[pos]? := by
    rw [List.getElem?_set, List.length_set, List.getElem?_set]
    by_cases isQ : q = pos
    · subst isQ
      simp [insideQ]
    · by_cases isP : p = pos
      · subst isP
        simp [isQ, insideP, Ne.symm isQ]
      · simp [isQ, isP, Ne.symm isQ, Ne.symm isP]
  constructor
  · intro id spot found
    rcases entry found with ⟨rfl, _⟩ | ⟨rfl, _⟩ | ⟨_, _, found⟩
    · exact indexed.ids found1
    · exact indexed.ids found2
    · exact indexed.ids found
  · intro id spot found
    rw [list]
    rcases entry found with ⟨rfl, rfl⟩ | ⟨rfl, rfl⟩ | ⟨not1, not2, found⟩
    · simp
    · simp [apart]
    · have here := indexed.random found
      have notQ : spot.nRandomPos ≠ q := by
        intro same
        rw [same, second] at here
        exact not2 (Option.some.inj here).symm
      have notP : spot.nRandomPos ≠ p := by
        intro same
        rw [same, first] at here
        exact not1 (Option.some.inj here).symm
      simp [notQ, notP, here]
  · intro pos id here
    rw [list] at here
    split at here
    · next isQ =>
      cases here
      exact ⟨_, at1, isQ.symm⟩
    · split at here
      · next isP =>
        cases here
        exact ⟨_, at2, isP.symm⟩
      · next notQ notP =>
        obtain ⟨spot, found, place⟩ := indexed.listed here
        have not1 : id ≠ id1 := fun same => notP (indexed.pos_unique here (same ▸ first))
        have not2 : id ≠ id2 := fun same => notQ (indexed.pos_unique here (same ▸ second))
        exact ⟨spot, by rw [other not1 not2, found], place⟩
  · intro id spot found
    rcases entry found with ⟨rfl, rfl⟩ | ⟨rfl, rfl⟩ | ⟨_, _, found⟩
    · have named := indexed.addr found1
      exact named
    · have named := indexed.addr found2
      exact named
    · exact indexed.addr found
  · intro addr id here
    obtain ⟨spot, found, same⟩ := indexed.named here
    by_cases is1 : id = id1
    · subst is1
      rw [found1] at found
      cases found
      exact ⟨_, at1, same⟩
    by_cases is2 : id = id2
    · subst is2
      rw [found2] at found
      cases found
      exact ⟨_, at2, same⟩
    exact ⟨spot, by rw [other is1 is2, found], same⟩

theorem removeLast (found : spots id = some spot) (last : spot.nRandomPos = vRandom.length - 1) :
    Indexed (Function.update spots id none) (fun addr => if addr = spot.addr then none else mapAddr addr) vRandom.dropLast nIdCount := by
  have end_ := indexed.random found
  have inside : spot.nRandomPos < vRandom.length := (List.getElem?_eq_some_iff.mp end_).1
  have list (pos : Nat) : vRandom.dropLast[pos]? = if pos = spot.nRandomPos then none else vRandom[pos]? := by
    rw [List.getElem?_dropLast]
    by_cases isLast : pos = spot.nRandomPos
    · rw [if_neg (by omega), if_pos isLast]
    · rw [if_neg isLast]
      split
      · rfl
      · rw [List.getElem?_eq_none (by omega)]
  have entry {id' : Nat} {spot' : Spot} (found' : Function.update spots id none id' = some spot') : id' ≠ id ∧ spots id' = some spot' := by
    by_cases same : id' = id
    · subst same
      rw [Function.update_self] at found'
      cases found'
    · rw [Function.update_of_ne same] at found'
      exact ⟨same, found'⟩
  constructor
  · exact fun found' => indexed.ids (entry found').2
  · intro id' spot' found'
    obtain ⟨other, found'⟩ := entry found'
    have here := indexed.random found'
    rw [list, if_neg, here]
    intro same
    rw [same, end_] at here
    exact other (Option.some.inj here).symm
  · intro pos id' here
    rw [list] at here
    split at here
    · cases here
    · next elsewhere =>
      obtain ⟨spot', found', place⟩ := indexed.listed here
      have other : id' ≠ id := by
        rintro rfl
        rw [found] at found'
        cases found'
        exact elsewhere place.symm
      exact ⟨spot', by rw [Function.update_of_ne other, found'], place⟩
  · intro id' spot' found'
    obtain ⟨other, found'⟩ := entry found'
    have elsewhere : spot'.addr ≠ spot.addr := fun same => other (indexed.addr_unique found' found same)
    rw [if_neg elsewhere, indexed.addr found']
  · intro addr id' here
    split at here
    · cases here
    · next elsewhere =>
      obtain ⟨spot', found', same⟩ := indexed.named here
      have other : id' ≠ id := by
        rintro rfl
        rw [found] at found'
        cases found'
        exact elsewhere same.symm
      exact ⟨spot', by rw [Function.update_of_ne other, found'], same⟩

theorem append {addr : CNetAddr} (fresh : mapAddr addr = none) :
    Indexed (Function.update spots nIdCount (some ⟨addr, vRandom.length⟩)) (fun addr' => if addr' = addr then some nIdCount else mapAddr addr')
      (vRandom ++ [nIdCount]) (nIdCount + 1) := by
  have entry {id : Nat} {spot : Spot} (found : Function.update spots nIdCount (some ⟨addr, vRandom.length⟩) id = some spot) :
      (id = nIdCount ∧ spot = ⟨addr, vRandom.length⟩) ∨ (id ≠ nIdCount ∧ spots id = some spot) := by
    by_cases same : id = nIdCount
    · subst same
      rw [Function.update_self] at found
      exact Or.inl ⟨rfl, (Option.some.inj found).symm⟩
    · rw [Function.update_of_ne same] at found
      exact Or.inr ⟨same, found⟩
  have old {id : Nat} {spot : Spot} (found : spots id = some spot) :
      Function.update spots nIdCount (some ⟨addr, vRandom.length⟩) id = some spot := by
    have small := indexed.ids found
    rw [Function.update_of_ne (by omega), found]
  constructor
  · intro id spot found
    rcases entry found with ⟨rfl, _⟩ | ⟨_, found⟩
    · omega
    · have small := indexed.ids found
      omega
  · intro id spot found
    rcases entry found with ⟨rfl, rfl⟩ | ⟨_, found⟩
    · exact List.getElem?_concat_length
    · have here := indexed.random found
      rw [List.getElem?_append_left (List.getElem?_eq_some_iff.mp here).1, here]
  · intro pos id here
    by_cases inside : pos < vRandom.length
    · rw [List.getElem?_append_left inside] at here
      obtain ⟨spot, found, place⟩ := indexed.listed here
      exact ⟨spot, old found, place⟩
    · rw [List.getElem?_append_right (by omega), List.getElem?_singleton] at here
      split at here
      · cases here
        exact ⟨_, Function.update_self .., by dsimp only; omega⟩
      · cases here
  · intro id spot found
    rcases entry found with ⟨rfl, rfl⟩ | ⟨_, found⟩
    · exact if_pos rfl
    · have named := indexed.addr found
      rw [if_neg, named]
      intro same
      rw [same, fresh] at named
      cases named
  · intro addr' id here
    split at here
    · next same =>
      cases here
      exact ⟨_, Function.update_self .., same.symm⟩
    · obtain ⟨spot, found, same⟩ := indexed.named here
      exact ⟨spot, old found, same⟩

end

end Indexed

end SchillingCoin.Net
