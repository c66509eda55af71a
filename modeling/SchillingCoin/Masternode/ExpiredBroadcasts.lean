import Mathlib.Data.List.Sort
import SchillingCoin.Masternode.MasternodeMan

/-!
The last loops of `CMasternodeMan::CheckAndRemove`, statement by statement: old broadcasts are taken out of the map through an
iterator, and their hashes out of the map of those that were synced.
-/

namespace StdMap

universe u v

variable {K : Type u} {V : Type v}

variable (rank : K → Nat) (m : StdMap K V)

def inOrder : List (K × V) :=
  (m.entries.map fun e => (e.1, e.2)).insertionSort fun a b => rank a.1 ≤ rank b.1

theorem nodup_inOrder : ((inOrder rank m).map Prod.fst).Nodup := by
  have listed : ((m.entries.map fun e => (e.1, e.2)).map Prod.fst).Nodup := by
    rw [List.map_map]
    exact m.nodupKeys
  exact ((List.perm_insertionSort _ _).map Prod.fst).nodup_iff.mpr listed

variable [DecidableEq K]

def ofList (l : List (K × V)) : StdMap K V := (l.map fun e => (⟨e.1, e.2⟩ : Sigma fun _ : K => V)).toAList

theorem mem_inOrder : (k, v) ∈ inOrder rank m ↔ m.lookup k = some v := by
  rw [← mem_entries_iff, inOrder, List.mem_insertionSort, List.mem_map]
  constructor
  · rintro ⟨e, listed, same⟩
    obtain ⟨rfl, rfl⟩ := Prod.mk.inj same
    exact listed
  · exact fun listed => ⟨⟨k, v⟩, listed, rfl⟩

theorem lookup_ofList {l : List (K × V)} (distinct : (l.map Prod.fst).Nodup) {k : K} {v : V} :
    (ofList l).lookup k = some v ↔ (k, v) ∈ l := by
  have nodup : (l.map fun e => (⟨e.1, e.2⟩ : Sigma fun _ : K => V)).NodupKeys := by
    rw [List.NodupKeys, List.keys, List.map_map]
    exact distinct
  rw [ofList, AList.lookup_to_alist, ← Option.mem_def, List.mem_dlookup_iff nodup, List.mem_map]
  constructor
  · rintro ⟨e, listed, same⟩
    obtain ⟨rfl, rfl⟩ := Sigma.mk.inj_iff.mp same
    exact listed
  · exact fun listed => ⟨(k, v), listed, rfl⟩

end StdMap

namespace SchillingCoin

namespace CMasternodeMan

/-- The last ping of a broadcast, or a ping, is older than twice the time after which an entry is removed. -/
def isOld (now sigTime : Int) : Bool := decide (sigTime < now - MASTERNODE_REMOVAL_SECONDS * 2)

/-- `it3` stands at the first entry of the list, which is empty where it is the end. `erase(it3++)` moves it to the next entry before
the hash of a broadcast is read through it. -/
def pruneBroadcasts (crypto : MasternodeCrypto) (now : Int) :
    List (uint256 × CMasternode) → StdMap uint256 Int → Except Fault (List (uint256 × CMasternode) × StdMap uint256 Int)
  | [], mapSeenSyncMNB => .ok ([], mapSeenSyncMNB)
  | entry :: it3, mapSeenSyncMNB =>
    if isOld now entry.2.lastPing.sigTime then
      (Access.element it3 0).bind fun next => pruneBroadcasts crypto now it3 (mapSeenSyncMNB.erase (next.2.getHash crypto))
    else (pruneBroadcasts crypto now it3 mapSeenSyncMNB).map fun pruned => (entry :: pruned.1, pruned.2)

def prunePings (now : Int) : List (uint256 × CMasternodePing) → List (uint256 × CMasternodePing)
  | [] => []
  | entry :: it4 => if isOld now entry.2.sigTime then prunePings now it4 else entry :: prunePings now it4

/-- What is left of the seen broadcasts, the seen pings and `mapSeenSyncMNB`. -/
def pruneSeen (crypto : MasternodeCrypto) (now : Int) (m : CMasternodeMan) (mapSeenSyncMNB : StdMap uint256 Int) :
    Except Fault (CMasternodeMan × StdMap uint256 Int) :=
  (pruneBroadcasts crypto now (StdMap.inOrder BitVec.toNat m.mapSeenMasternodeBroadcast) mapSeenSyncMNB).map fun pruned =>
    ({ m with
        mapSeenMasternodeBroadcast := StdMap.ofList pruned.1
        mapSeenMasternodePing := StdMap.ofList (prunePings now (StdMap.inOrder BitVec.toNat m.mapSeenMasternodePing)) },
      pruned.2)

def withPrevious : Option (uint256 × CMasternode) → List (uint256 × CMasternode) →
    List (Option (uint256 × CMasternode) × (uint256 × CMasternode))
  | _, [] => []
  | previous, entry :: rest => (previous, entry) :: withPrevious (some entry) rest

def isExpired (now : Int) (entry : uint256 × CMasternode) : Bool := isOld now entry.2.lastPing.sigTime

def followers (crypto : MasternodeCrypto) (now : Int) (l : List (uint256 × CMasternode)) : List uint256 :=
  ((withPrevious none l).filter fun p => p.1.any (isExpired now)).map fun p => p.2.2.getHash crypto

variable (crypto : MasternodeCrypto) (now : Int)

theorem followers_cons (entry next : uint256 × CMasternode) (rest : List (uint256 × CMasternode)) :
    followers crypto now (entry :: next :: rest) =
      if isExpired now entry then next.2.getHash crypto :: followers crypto now (next :: rest) else followers crypto now (next :: rest) := by
  unfold followers
  by_cases old : isExpired now entry = true
  · rw [if_pos old]
    simp [withPrevious, old]
  · rw [if_neg old]
    simp [withPrevious, old]

variable (l : List (uint256 × CMasternode)) (pingTime : Int)

/-- The loop stops with a read at the end where the last broadcast has expired. -/
theorem pruneBroadcasts_eq (mapSeenSyncMNB : StdMap uint256 Int) :
    pruneBroadcasts crypto now l mapSeenSyncMNB =
      if l.getLast?.any (isExpired now) then .error .outOfRange
      else .ok (l.filter fun entry => !isExpired now entry, (followers crypto now l).foldl (fun m h => m.erase h) mapSeenSyncMNB) := by
  induction l generalizing mapSeenSyncMNB with
  | nil => rfl
  | cons entry rest ih =>
    have last : ∀ next rest', (entry :: next :: rest' : List (uint256 × CMasternode)).getLast? = (next :: rest').getLast? := fun _ _ =>
      List.getLast?_cons_cons
    rw [pruneBroadcasts]
    by_cases old : isExpired now entry = true
    · rw [if_pos (show isOld now entry.2.lastPing.sigTime = true from old), List.filter_cons_of_neg (by simp [old])]
      cases rest with
      | nil =>
        rw [if_pos (by simp [old])]
        rfl
      | cons next rest =>
        rw [last, followers_cons, if_pos old, List.foldl_cons, ← ih]
        rfl
    · rw [if_neg (show ¬isOld now entry.2.lastPing.sigTime = true from old), List.filter_cons_of_pos (by simp [old]), ih]
      cases rest with
      | nil =>
        rw [if_neg (by simp), if_neg (by simp [old])]
        rfl
      | cons next rest =>
        rw [last, followers_cons, if_neg old]
        split <;> rfl

theorem prunePings_eq (l : List (uint256 × CMasternodePing)) : prunePings now l = l.filter fun entry => !isOld now entry.2.sigTime := by
  induction l with
  | nil => rfl
  | cons entry rest ih =>
    rw [prunePings, List.filter_cons, ih]
    cases isOld now entry.2.sigTime <;> rfl

variable {crypto now} {m m' : CMasternodeMan} {mapSeenSyncMNB synced : StdMap uint256 Int}

def seen (m : CMasternodeMan) : List (uint256 × CMasternode) := StdMap.inOrder BitVec.toNat m.mapSeenMasternodeBroadcast

def LastFresh (now : Int) (m : CMasternodeMan) : Prop := ∀ entry ∈ m.seen.getLast?, isExpired now entry = false

theorem pruneSeen_ok : pruneSeen crypto now m mapSeenSyncMNB = .ok (m', synced) ↔ LastFresh now m ∧
    m' = { m with
      mapSeenMasternodeBroadcast := StdMap.ofList (m.seen.filter fun entry => !isExpired now entry)
      mapSeenMasternodePing := StdMap.ofList (prunePings now (StdMap.inOrder BitVec.toNat m.mapSeenMasternodePing)) } ∧
    synced = (followers crypto now m.seen).foldl (fun m h => m.erase h) mapSeenSyncMNB := by
  have fresh : LastFresh now m ↔ ¬m.seen.getLast?.any (isExpired now) = true := by
    unfold LastFresh
    cases m.seen.getLast? <;> simp
  rw [fresh, pruneSeen, pruneBroadcasts_eq]
  change Except.map _ (if m.seen.getLast?.any (isExpired now) = true then _ else _) = _ ↔ _
  by_cases old : m.seen.getLast?.any (isExpired now) = true
  · rw [if_pos old]
    exact iff_of_false (fun done => by cases done) (fun done => done.1 old)
  · rw [if_neg old]
    constructor
    · intro done
      obtain ⟨first, second⟩ := Prod.mk.inj (Except.ok.inj done)
      exact ⟨old, first.symm, second.symm⟩
    · rintro ⟨-, rfl, rfl⟩
      rfl

theorem pruneSeen_maps (pruned : pruneSeen crypto now m mapSeenSyncMNB = .ok (m', synced)) :
    (∀ h, m'.mapSeenMasternodeBroadcast.lookup h =
      (StdMap.filter (fun _ mnb => !isOld now mnb.lastPing.sigTime) m.mapSeenMasternodeBroadcast).lookup h) ∧
    ∀ h, m'.mapSeenMasternodePing.lookup h = (StdMap.filter (fun _ mnp => !isOld now mnp.sigTime) m.mapSeenMasternodePing).lookup h := by
  obtain ⟨-, rfl, -⟩ := pruneSeen_ok.mp pruned
  have kept : ∀ {V : Type} (test : uint256 × V → Bool) (map : StdMap uint256 V) (h : uint256),
      (StdMap.ofList ((StdMap.inOrder BitVec.toNat map).filter test)).lookup h = (StdMap.filter (fun k v => test (k, v)) map).lookup h := by
    intro V test map h
    have distinct : (((StdMap.inOrder BitVec.toNat map).filter test).map Prod.fst).Nodup :=
      (StdMap.nodup_inOrder BitVec.toNat map).sublist (List.filter_sublist.map _)
    apply Option.ext
    intro v
    rw [StdMap.lookup_ofList distinct, List.mem_filter, StdMap.mem_inOrder, StdMap.lookup_filter, Option.filter_eq_some_iff]
  refine ⟨fun h => kept _ _ h, fun h => ?_⟩
  dsimp only
  rw [prunePings_eq]
  exact kept _ _ h

structure PrunedExactly (crypto : MasternodeCrypto) (now : Int) (m : CMasternodeMan) (mapSeenSyncMNB : StdMap uint256 Int)
    (m' : CMasternodeMan) (synced : StdMap uint256 Int) : Prop where
  broadcasts : ∀ h mnb, m'.mapSeenMasternodeBroadcast.lookup h = some mnb ↔
    m.mapSeenMasternodeBroadcast.lookup h = some mnb ∧ isOld now mnb.lastPing.sigTime = false
  syncMNB : ∀ h n, synced.lookup h = some n ↔ mapSeenSyncMNB.lookup h = some n ∧
    ¬∃ k mnb, m.mapSeenMasternodeBroadcast.lookup k = some mnb ∧ isOld now mnb.lastPing.sigTime = true ∧ mnb.getHash crypto = h

def PrunesSafely (crypto : MasternodeCrypto) (now : Int) (m : CMasternodeMan) (mapSeenSyncMNB : StdMap uint256 Int) : Prop :=
  ∃ m' synced, pruneSeen crypto now m mapSeenSyncMNB = .ok (m', synced) ∧ PrunedExactly crypto now m mapSeenSyncMNB m' synced

def expiredHashes (crypto : MasternodeCrypto) (now : Int) (l : List (uint256 × CMasternode)) : List uint256 :=
  (l.filter (isExpired now)).map fun entry => entry.2.getHash crypto

def Keyed (crypto : MasternodeCrypto) (m : CMasternodeMan) : Prop :=
  ∀ h mnb, m.mapSeenMasternodeBroadcast.lookup h = some mnb → mnb.getHash crypto = h

/-- No hash in `mapSeenSyncMNB` is that of a broadcast that has expired while the one before it has not, or the other way round. Before
the first one there is none. -/
def SyncedApart (crypto : MasternodeCrypto) (now : Int) (m : CMasternodeMan) (mapSeenSyncMNB : StdMap uint256 Int) : Prop :=
  ∀ p ∈ withPrevious none m.seen, p.1.any (isExpired now) ≠ isExpired now p.2 → mapSeenSyncMNB.lookup (p.2.2.getHash crypto) = none

theorem mem_expiredHashes : h ∈ expiredHashes crypto now m.seen ↔
    ∃ k mnb, m.mapSeenMasternodeBroadcast.lookup k = some mnb ∧ isOld now mnb.lastPing.sigTime = true ∧ mnb.getHash crypto = h := by
  rw [expiredHashes, List.mem_map]
  constructor
  · rintro ⟨⟨k, mnb⟩, listed, same⟩
    obtain ⟨found, old⟩ := List.mem_filter.mp listed
    exact ⟨k, mnb, (StdMap.mem_inOrder _ _).mp found, old, same⟩
  · rintro ⟨k, mnb, found, old, same⟩
    exact ⟨(k, mnb), List.mem_filter.mpr ⟨(StdMap.mem_inOrder _ _).mpr found, old⟩, same⟩

theorem prunesSafely_iff : PrunesSafely crypto now m mapSeenSyncMNB ↔ LastFresh now m ∧
    ∀ h n, mapSeenSyncMNB.lookup h = some n → (h ∈ followers crypto now m.seen ↔ h ∈ expiredHashes crypto now m.seen) := by
  have erased : ∀ h n, ((followers crypto now m.seen).foldl (fun m h => m.erase h) mapSeenSyncMNB).lookup h = some n ↔
      mapSeenSyncMNB.lookup h = some n ∧ h ∉ followers crypto now m.seen := by
    intro h n
    rw [StdMap.lookup_foldl_erase (fun h => h), List.map_id']
  constructor
  · rintro ⟨m', synced, pruned, exactly⟩
    obtain ⟨fresh, -, rfl⟩ := pruneSeen_ok.mp pruned
    refine ⟨fresh, fun h n found => ?_⟩
    have same := exactly.syncMNB h n
    rw [erased, ← mem_expiredHashes] at same
    have apart : h ∉ followers crypto now m.seen ↔ h ∉ expiredHashes crypto now m.seen := by
      constructor
      · exact fun absent => (same.mp ⟨found, absent⟩).2
      · exact fun absent => (same.mpr ⟨found, absent⟩).2
    exact not_iff_not.mp apart
  · rintro ⟨fresh, same⟩
    obtain ⟨m', synced, pruned⟩ : ∃ m' synced, pruneSeen crypto now m mapSeenSyncMNB = .ok (m', synced) :=
      ⟨_, _, pruneSeen_ok.mpr ⟨fresh, rfl, rfl⟩⟩
    obtain ⟨-, -, rfl⟩ := pruneSeen_ok.mp pruned
    refine ⟨m', _, pruned, ?_, ?_⟩
    · intro h mnb
      rw [(pruneSeen_maps pruned).1, StdMap.lookup_filter, Option.filter_eq_some_iff, Bool.not_eq_true']
    · intro h n
      rw [erased, ← mem_expiredHashes]
      constructor
      · exact fun ⟨found, absent⟩ => ⟨found, (same h n found).not.mp absent⟩
      · exact fun ⟨found, absent⟩ => ⟨found, (same h n found).not.mpr absent⟩

theorem withPrevious_snd (previous : Option (uint256 × CMasternode)) (l : List (uint256 × CMasternode)) :
    (withPrevious previous l).map Prod.snd = l := by
  induction l generalizing previous with
  | nil => rfl
  | cons entry rest ih => rw [withPrevious, List.map_cons, ih]

theorem keyed_iff (now : Int) (keyed : m.Keyed crypto) (placed : p ∈ withPrevious none m.seen) :
    (p.2.2.getHash crypto ∈ followers crypto now m.seen ↔ p.1.any (isExpired now) = true) ∧
      (p.2.2.getHash crypto ∈ expiredHashes crypto now m.seen ↔ isExpired now p.2 = true) := by
  have key : ∀ entry ∈ m.seen, entry.2.getHash crypto = entry.1 := fun entry listed => keyed _ _ ((StdMap.mem_inOrder _ _).mp listed)
  have listed : ∀ q ∈ withPrevious none m.seen, q.2 ∈ m.seen := fun q member => by
    rw [← withPrevious_snd none m.seen]
    exact List.mem_map_of_mem member
  have distinct : ((withPrevious none m.seen).map fun q => q.2.1).Nodup := by
    have keys : (withPrevious none m.seen).map (fun q => q.2.1) = m.seen.map Prod.fst := by
      rw [← withPrevious_snd none m.seen, List.map_map, withPrevious_snd]
      rfl
    rw [keys]
    exact StdMap.nodup_inOrder _ _
  have one : ∀ q ∈ withPrevious none m.seen, q.2.2.getHash crypto = p.2.2.getHash crypto → q = p := by
    intro q member same
    rw [key _ (listed q member), key _ (listed p placed)] at same
    exact List.inj_on_of_nodup_map distinct member placed same
  constructor
  · rw [followers, List.mem_map]
    constructor
    · rintro ⟨q, found, same⟩
      obtain ⟨member, old⟩ := List.mem_filter.mp found
      rw [← one q member same]
      exact old
    · exact fun old => ⟨p, List.mem_filter.mpr ⟨placed, old⟩, rfl⟩
  · rw [expiredHashes, List.mem_map]
    constructor
    · rintro ⟨entry, found, same⟩
      obtain ⟨member, old⟩ := List.mem_filter.mp found
      rw [← withPrevious_snd none m.seen] at member
      obtain ⟨q, place, rfl⟩ := List.mem_map.mp member
      rw [← one q place same]
      exact old
    · exact fun old => ⟨p.2, List.mem_filter.mpr ⟨listed p placed, old⟩, rfl⟩

theorem syncedApart_iff (keyed : m.Keyed crypto) : SyncedApart crypto now m mapSeenSyncMNB ↔
    ∀ h n, mapSeenSyncMNB.lookup h = some n → (h ∈ followers crypto now m.seen ↔ h ∈ expiredHashes crypto now m.seen) := by
  constructor
  · intro apart h n found
    by_cases known : ∃ p ∈ withPrevious none m.seen, p.2.2.getHash crypto = h
    · obtain ⟨p, placed, rfl⟩ := known
      obtain ⟨following, expired⟩ := keyed_iff now keyed placed
      have same : p.1.any (isExpired now) = isExpired now p.2 := by
        by_contra differ
        rw [apart p placed differ] at found
        cases found
      rw [following, expired, same]
    · have absent : h ∉ followers crypto now m.seen ∧ h ∉ expiredHashes crypto now m.seen := by
        constructor
        · intro member
          obtain ⟨p, listed, same⟩ := List.mem_map.mp member
          exact known ⟨p, List.mem_of_mem_filter listed, same⟩
        · intro member
          obtain ⟨entry, listed, same⟩ := List.mem_map.mp member
          have member := List.mem_of_mem_filter listed
          rw [← withPrevious_snd none m.seen] at member
          obtain ⟨p, placed, rfl⟩ := List.mem_map.mp member
          exact known ⟨p, placed, same⟩
      exact iff_of_false absent.1 absent.2
  · intro same p placed differ
    cases found : mapSeenSyncMNB.lookup (p.2.2.getHash crypto) with
    | none => rfl
    | some n =>
      obtain ⟨following, expired⟩ := keyed_iff now keyed placed
      have both := same _ n found
      rw [following, expired] at both
      exact absurd (Bool.eq_iff_iff.mpr both) differ

/-- The loops are safe and exact where the last broadcast has not expired and the synced hashes of those that follow an expired one are
the synced hashes of the expired ones. -/
theorem prunesSafely_exact (crypto : MasternodeCrypto) (now : Int) (m : CMasternodeMan) (mapSeenSyncMNB : StdMap uint256 Int) :
    (PrunesSafely crypto now m mapSeenSyncMNB ↔ LastFresh now m ∧
      ∀ h n, mapSeenSyncMNB.lookup h = some n → (h ∈ followers crypto now m.seen ↔ h ∈ expiredHashes crypto now m.seen)) ∧
    (m.Keyed crypto → (PrunesSafely crypto now m mapSeenSyncMNB ↔ LastFresh now m ∧ SyncedApart crypto now m mapSeenSyncMNB)) := by
  refine ⟨prunesSafely_iff, fun keyed => ?_⟩
  rw [prunesSafely_iff, syncedApart_iff keyed]

def timeCrypto : MasternodeCrypto where
  getID _ := ⟨List.replicate 20 0, rfl⟩
  broadcastHash sigTime _ := BitVec.ofInt 256 sigTime
  pingHash _ _ sigTime := BitVec.ofInt 256 sigTime
  signatureHash _ _ _ _ _ _ := 0
  verifyMessage _ _ _ := true
  checkPing _ _ := true
  txHash _ _ := 0
  collateralPubKey := []

def pingedAt (sigTime pingTime : Int) : CMasternode where
  vin := { prevout := .null }
  addr := {}
  pubKeyCollateralAddress := []
  pubKeyMasternode := []
  sigTime
  protocolVersion := 70919
  lastPing := { sigTime := pingTime }

def seenAlone : CMasternodeMan where
  mapSeenMasternodeBroadcast := AList.insert 1 (pingedAt 1 pingTime) ∅

def seenBefore : CMasternodeMan where
  mapSeenMasternodeBroadcast := AList.insert 1 (pingedAt 1 0) (AList.insert 2 (pingedAt 2 100000) ∅)

theorem seenAlone_keyed : (seenAlone pingTime).Keyed timeCrypto := by
  intro h mnb found
  rw [seenAlone, StdMap.lookup_insert_ite, AList.lookup_empty] at found
  split at found
  · next same =>
    cases found
    rw [same]
    rfl
  · cases found

theorem prunesSafely_alone : PrunesSafely timeCrypto 100000 (seenAlone 100000) (AList.insert 1 0 ∅) := by
  refine ((prunesSafely_exact timeCrypto 100000 (seenAlone 100000) (AList.insert 1 0 ∅)).2 (seenAlone_keyed 100000)).mpr ⟨?_, ?_⟩
  · intro entry last
    cases last
    rfl
  · intro p placed differ
    obtain rfl := List.mem_singleton.mp (show p ∈ [(none, (1, pingedAt 1 100000))] from placed)
    exact absurd rfl differ

/-- A broadcast that was the last one is followed by a read at the end. -/
theorem prunes_the_neighbour :
    ((seenAlone 0).Keyed timeCrypto ∧ pruneSeen timeCrypto 100000 (seenAlone 0) ∅ = .error .outOfRange) ∧
    ∃ m' synced, pruneSeen timeCrypto 100000 seenBefore (AList.insert 1 0 (AList.insert 2 0 ∅)) = .ok (m', synced) ∧
      synced.lookup 1 = some 0 ∧ synced.lookup 2 = none ∧ m'.mapSeenMasternodeBroadcast.lookup 1 = none ∧
      ¬PrunesSafely timeCrypto 100000 seenBefore (AList.insert 1 0 (AList.insert 2 0 ∅)) := by
  refine ⟨⟨seenAlone_keyed 0, rfl⟩, _, _, rfl, rfl, rfl, rfl, ?_⟩
  rintro ⟨m', synced, pruned, exactly⟩
  obtain ⟨-, -, rfl⟩ := pruneSeen_ok.mp pruned
  have gone := (exactly.syncMNB 1 0).mp rfl
  exact gone.2 ⟨1, pingedAt 1 0, rfl, rfl, rfl⟩

end CMasternodeMan

end SchillingCoin
