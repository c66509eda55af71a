import SchillingCoin.Net.AddrManCheck

/-!
Runs of the address manager from an empty one.
-/

namespace SchillingCoin.Net

inductive AddrOp where
  | add (addr : CAddress) (source : CNetAddr) (nTimePenalty : Int) (draws : CAddrMan.AddDraws)
  | good (addr : CService) (nTime : Int) (nRnd : Nat)
  | attempt (addr : CService) (fCountFailure : Bool) (nTime : Int)
  | connected (addr : CService) (nTime : Int)
  | select (newOnly : Bool) (draws : CAddrMan.SelectDraws)
  | getAddr (draw : Nat → Nat) (nNow : Nat → Int)

inductive AddrAnswer where
  | done
  | added (fNew : Bool)
  | selected (info : Option CAddrInfo)
  | addresses (vAddr : List CAddrInfo)

def AddrOp.Allowed : AddrOp → Prop
  | .good _ nTime _ => 0 < nTime
  | .attempt _ _ nTime => 0 ≤ nTime
  | _ => True

/-- `GetAddr` gives different addresses, none of which was terrible when it was looked at. -/
def AddrOp.Answered : AddrOp → AddrAnswer → Prop
  | .getAddr _ nNow, answer => ∃ vAddr, answer = .addresses vAddr ∧ (vAddr.map fun ai => ai.toCNetAddr).Nodup ∧
      ∀ ai ∈ vAddr, ∃ n, ai.isTerrible (nNow n) = false
  | _, _ => True

namespace CAddrMan

variable (k : AddrBuckets)

def step (s : CAddrMan) : AddrOp → Option (AddrAnswer × CAddrMan)
  | .add addr source nTimePenalty draws => (s.add_ k addr source nTimePenalty draws).map fun r => (.added r.1, r.2)
  | .good addr nTime nRnd => (s.good_ k addr nTime nRnd).map fun s => (.done, s)
  | .attempt addr fCountFailure nTime => some (.done, s.attempt_ addr fCountFailure nTime)
  | .connected addr nTime => some (.done, s.connected_ addr nTime)
  | .select newOnly draws => (s.select_ newOnly draws).map fun info => (.selected info, s)
  | .getAddr draw nNow => (s.getAddr_ draw nNow).map fun r => (.addresses r.2, r.1)

/-- Ids, addresses and positions name each other, the counts are those of the entries, and the entries have the slots they count. -/
structure Consistent (s : CAddrMan) : Prop where
  addresses : ∀ addr id, s.mapAddr.lookup addr = some id ↔ ∃ info, s.mapInfo.lookup id = some info ∧ info.toCNetAddr = addr
  positions : ∀ pos id, s.vRandom[pos]? = some id ↔ ∃ info, s.mapInfo.lookup id = some info ∧ info.nRandomPos = pos
  newCount : s.nNew = StdMap.sum newWeight s.mapInfo
  triedCount : s.nTried = StdMap.sum triedWeight s.mapInfo
  tried : ∀ id info, s.mapInfo.lookup id = some info → info.fInTried = true → info.nRefCount = 0 ∧
    ∀ b i, s.vvTried b i = some id ↔ b = s.triedBucket k info ∧ i = s.triedPos k info
  triedSlots : ∀ b i id, s.vvTried b i = some id → ∃ info, s.mapInfo.lookup id = some info ∧ info.fInTried = true
  new : ∀ id info, s.mapInfo.lookup id = some info → info.fInTried = false → 1 ≤ info.nRefCount ∧
    info.nRefCount ≤ ADDRMAN_NEW_BUCKETS_PER_ADDRESS ∧
    info.nRefCount = (slots ADDRMAN_NEW_BUCKET_COUNT).countP (Buckets.held s.vvNew id) ∧ ∀ b i, s.vvNew b i = some id → i = s.newPos k info b
  newSlots : ∀ b i id, s.vvNew b i = some id → ∃ info, s.mapInfo.lookup id = some info ∧ info.fInTried = false

variable {k} {s : CAddrMan}

theorem Valid.consistent (valid : Settled k s) : s.Consistent k := by
  constructor
  · intro addr id
    constructor
    · intro named
      obtain ⟨spot, listed, same⟩ := valid.indexed.named named
      obtain ⟨info, found, rfl⟩ := of_spots listed
      exact ⟨info, found, same⟩
    · rintro ⟨info, found, rfl⟩
      exact valid.indexed.addr (spots_of found)
  · intro pos id
    constructor
    · exact valid.listed
    · rintro ⟨info, found, rfl⟩
      exact valid.random found
  · have new := valid.counted.new
    omega
  · exact valid.counted.tried
  · intro id info found tried
    refine ⟨valid.slotted.tried_unused (seats_of found) tried, fun b i => ?_⟩
    constructor
    · intro here
      obtain ⟨seat, seated, _, bucket, place⟩ := valid.slotted.tried here
      rw [seats_of found] at seated
      cases seated
      exact ⟨bucket, place⟩
    · rintro ⟨rfl, rfl⟩
      exact valid.slotted.slot (seats_of found) tried
  · intro b i id here
    obtain ⟨seat, seated, tried, _⟩ := valid.slotted.tried here
    obtain ⟨info, found, rfl⟩ := of_seats seated
    exact ⟨info, found, tried⟩
  · intro id info found untried
    have used : 0 < info.nRefCount := (valid.ranged.used found untried).resolve_left not_false
    refine ⟨used, (valid.ranged.fits found).few, refs_eq_countP valid found, fun b i here => ?_⟩
    obtain ⟨info', found', _, place, _⟩ := valid.held here
    rw [found] at found'
    cases found'
    exact place
  · intro b i id here
    obtain ⟨info, found, untried, _⟩ := valid.held here
    exact ⟨info, found, untried⟩

theorem step_settled (valid : Settled k s) (op : AddrOp) (allowed : op.Allowed) :
    ∃ answer s', s.step k op = some (answer, s') ∧ op.Answered answer ∧ Settled k s' ∧ s'.nKey = s.nKey := by
  cases op with
  | add addr source nTimePenalty draws =>
    obtain ⟨fNew, s', added, settled, key⟩ := add_spec valid addr source nTimePenalty draws
    exact ⟨.added fNew, s', Option.map_eq_some_iff.mpr ⟨_, added, rfl⟩, trivial, settled, key⟩
  | good addr nTime nRnd =>
    obtain ⟨s', good, settled, key⟩ := good_spec valid addr allowed nRnd
    exact ⟨.done, s', Option.map_eq_some_iff.mpr ⟨_, good, rfl⟩, trivial, settled, key⟩
  | attempt addr fCountFailure nTime =>
    obtain ⟨settled, key⟩ := attempt_spec valid addr fCountFailure allowed
    exact ⟨.done, _, rfl, trivial, settled, key⟩
  | connected addr nTime =>
    obtain ⟨settled, key⟩ := connected_spec valid addr nTime
    exact ⟨.done, _, rfl, trivial, settled, key⟩
  | select newOnly draws =>
    obtain ⟨info, selected⟩ := select_spec valid newOnly draws
    exact ⟨.selected info, s, Option.map_eq_some_iff.mpr ⟨_, selected, rfl⟩, trivial, valid, rfl⟩
  | getAddr draw nNow =>
    obtain ⟨s', vAddr, gathered, settled, key, distinct, well⟩ := getAddr_spec valid draw nNow
    exact ⟨.addresses vAddr, s', Option.map_eq_some_iff.mpr ⟨_, gathered, rfl⟩, ⟨vAddr, rfl, distinct, well⟩, settled, key⟩

end CAddrMan

/-- No assertion fails in a run, the check passes after it, and every `GetAddr` of it is answered well. -/
theorem addrMan_run_checks (k : AddrBuckets) (nKey : uint256) (nonnull : nKey ≠ 0) (ops : List AddrOp) (allowed : ∀ op ∈ ops, op.Allowed) :
    ∃ answers s, Run.run (CAddrMan.step k) { nKey } ops = some (answers, s) ∧ s.check k = .ok () ∧ s.Consistent k ∧
      List.Forall₂ AddrOp.Answered ops answers := by
  have one (s : CAddrMan) (op : AddrOp) (inv : CAddrMan.Settled k s ∧ s.nKey = nKey) (allowed : op.Allowed) :
      ∃ answer s', s.step k op = some (answer, s') ∧ op.Answered answer ∧ CAddrMan.Settled k s' ∧ s'.nKey = nKey := by
    obtain ⟨answer, s', stepped, answered, settled, key⟩ := CAddrMan.step_settled inv.1 op allowed
    exact ⟨answer, s', stepped, answered, settled, key.trans inv.2⟩
  obtain ⟨answers, s, ran, answered, settled, key⟩ :=
    Run.run_answers (fun s : CAddrMan => CAddrMan.Settled k s ∧ s.nKey = nKey) _ _ one ops ⟨CAddrMan.settled_empty k nKey, rfl⟩ allowed
  exact ⟨answers, s, ran, CAddrMan.check_ok settled (key.symm ▸ nonnull), CAddrMan.Valid.consistent settled, answered⟩

def oneBucket : AddrBuckets where
  isRoutable _ := true
  getTriedBucket _ _ := ⟨0, by decide⟩
  getNewBucket _ _ _ := ⟨0, by decide⟩
  getBucketPosition _ _ _ _ := ⟨0, by decide⟩

theorem two_addresses_check :
    ∃ answers s, Run.run (CAddrMan.step oneBucket) { nKey := 1 }
        [.add ⟨⟨⟨1⟩, 9000⟩, 1, 1000⟩ ⟨7⟩ 0 ⟨1000, 1000, 0⟩, .good ⟨⟨1⟩, 9000⟩ 1001 0, .add ⟨⟨⟨2⟩, 9000⟩, 1, 1000⟩ ⟨7⟩ 0 ⟨1000, 1000, 0⟩,
         .good ⟨⟨2⟩, 9000⟩ 1002 0, .getAddr (fun _ => 0) fun _ => 1003] = some (answers, s) ∧
      s.check oneBucket = .ok () ∧ s.Consistent oneBucket ∧
      List.Forall₂ AddrOp.Answered
        [.add ⟨⟨⟨1⟩, 9000⟩, 1, 1000⟩ ⟨7⟩ 0 ⟨1000, 1000, 0⟩, .good ⟨⟨1⟩, 9000⟩ 1001 0, .add ⟨⟨⟨2⟩, 9000⟩, 1, 1000⟩ ⟨7⟩ 0 ⟨1000, 1000, 0⟩,
         .good ⟨⟨2⟩, 9000⟩ 1002 0, .getAddr (fun _ => 0) fun _ => 1003] answers := by
  refine addrMan_run_checks oneBucket 1 (by decide) _ fun op member => ?_
  simp only [List.mem_cons, List.not_mem_nil, or_false] at member
  rcases member with rfl | rfl | rfl | rfl | rfl
  · trivial
  · show (0 : Int) < 1001
    decide
  · trivial
  · show (0 : Int) < 1002
    decide
  · trivial

end SchillingCoin.Net
