import Mathlib.Tactic.Ring
import SchillingCoin.Lib.Run
import SchillingCoin.Lib.StdMap
import SchillingCoin.Primitives.Transaction

/-!
The blocks asked from peers and the peers to ask, after `InitializeNode`, `FinalizeNode`, `MarkBlockAsReceived`,
`MarkBlockAsInFlight`, `UpdatePreferredDownload` and the start of block sync in `main.cpp`.
-/

namespace SchillingCoin

abbrev NodeId := Int

structure QueuedBlock where
  hash : uint256
  pindex : Option uint256
  nTime : Int
  nValidatedQueuedBefore : Int
  fValidatedHeaders : Bool
  deriving DecidableEq, Repr

structure CNode where
  fInbound : Bool
  fWhitelisted : Bool
  fOneShot : Bool
  fClient : Bool
  deriving DecidableEq, Repr

structure CNodeState where
  fSyncStarted : Bool := false
  nStallingSince : Int := 0
  /-- Each entry with the address of its list node, which the iterators point to. -/
  vBlocksInFlight : List (Nat × QueuedBlock) := []
  nBlocksInFlight : Int := 0
  fPreferredDownload : Bool := false
  deriving DecidableEq, Repr

structure DownloadState where
  mapNodeState : StdMap NodeId CNodeState := ∅
  mapBlocksInFlight : StdMap uint256 (NodeId × Nat) := ∅
  nSyncStarted : Int := 0
  nQueuedValidatedHeaders : Int := 0
  nPreferredDownload : Int := 0
  nextAddress : Nat := 0

namespace DownloadState

/-! `none` is a null pointer or an iterator that points nowhere, and the failed assertion. -/

variable (s : DownloadState) (nodeid : NodeId) (hash : uint256)

def updatePreferredDownload (node : CNode) : Option DownloadState := do
  let state ← s.mapNodeState.lookup nodeid
  let fPreferredDownload := (!node.fInbound || node.fWhitelisted) && !node.fOneShot && !node.fClient
  some { s with
    mapNodeState := s.mapNodeState.insert nodeid { state with fPreferredDownload }
    nPreferredDownload := s.nPreferredDownload - state.fPreferredDownload.toNat + fPreferredDownload.toNat }

def initializeNode : DownloadState :=
  { s with mapNodeState := s.mapNodeState.insertNew nodeid {} }

def finalizeNode : Option DownloadState := do
  let state ← s.mapNodeState.lookup nodeid
  some { s with
    mapNodeState := s.mapNodeState.erase nodeid
    mapBlocksInFlight := state.vBlocksInFlight.foldl (fun m entry => m.erase entry.2.hash) s.mapBlocksInFlight
    nSyncStarted := s.nSyncStarted - state.fSyncStarted.toNat
    nPreferredDownload := s.nPreferredDownload - state.fPreferredDownload.toNat }

def takeEntry (nodeid : NodeId) (state : CNodeState) (address : Nat) (entry : QueuedBlock) : DownloadState :=
  { s with
    mapNodeState := s.mapNodeState.insert nodeid
      { state with
        vBlocksInFlight := state.vBlocksInFlight.filter fun e => e.1 ≠ address
        nBlocksInFlight := state.nBlocksInFlight - 1
        nStallingSince := 0 }
    mapBlocksInFlight := s.mapBlocksInFlight.erase hash
    nQueuedValidatedHeaders := s.nQueuedValidatedHeaders - entry.fValidatedHeaders.toNat }

def markBlockAsReceived : Option DownloadState :=
  match s.mapBlocksInFlight.lookup hash with
  | none => some s
  | some itInFlight => do
    let state ← s.mapNodeState.lookup itInFlight.1
    let entry ← state.vBlocksInFlight.find? fun e => e.1 = itInFlight.2
    some (s.takeEntry hash itInFlight.1 state itInFlight.2 entry.2)

def pushEntry (state : CNodeState) (newentry : QueuedBlock) : DownloadState :=
  { s with
    mapNodeState := s.mapNodeState.insert nodeid
      { state with
        vBlocksInFlight := state.vBlocksInFlight ++ [(s.nextAddress, newentry)]
        nBlocksInFlight := state.nBlocksInFlight + 1 }
    mapBlocksInFlight := s.mapBlocksInFlight.insert newentry.hash (nodeid, s.nextAddress)
    nQueuedValidatedHeaders := s.nQueuedValidatedHeaders + newentry.fValidatedHeaders.toNat
    nextAddress := s.nextAddress + 1 }

def markBlockAsInFlight (pindex : Option uint256) (nTime : Int) :
    Option DownloadState := do
  let _ ← s.mapNodeState.lookup nodeid
  -- It may be listed already, under this peer or another.
  let s ← s.markBlockAsReceived hash
  let state ← s.mapNodeState.lookup nodeid
  some (s.pushEntry nodeid state
    { hash, pindex, nTime, nValidatedQueuedBefore := s.nQueuedValidatedHeaders, fValidatedHeaders := pindex.isSome })

/-- The start of block sync in `SendMessages`; `recent` says that the best header is younger than six hours. -/
def startSync (node : CNode) (fReindex recent : Bool) : Option DownloadState := do
  let state ← s.mapNodeState.lookup nodeid
  let fFetch := state.fPreferredDownload || (s.nPreferredDownload == 0 && !node.fClient && !node.fOneShot)
  if !state.fSyncStarted && !node.fClient && fFetch && !fReindex && (s.nSyncStarted == 0 || recent) then
    some { s with
      mapNodeState := s.mapNodeState.insert nodeid { state with fSyncStarted := true }
      nSyncStarted := s.nSyncStarted + 1 }
  else some s

inductive Op where
  | initializeNode (nodeid : NodeId)
  | updatePreferredDownload (nodeid : NodeId) (node : CNode)
  | markBlockAsInFlight (nodeid : NodeId) (hash : uint256) (pindex : Option uint256) (nTime : Int)
  | markBlockAsReceived (hash : uint256)
  | startSync (nodeid : NodeId) (node : CNode) (fReindex recent : Bool)
  | finalizeNode (nodeid : NodeId)

def step : Op → Option DownloadState
  | .initializeNode nodeid => some (s.initializeNode nodeid)
  | .updatePreferredDownload nodeid node => s.updatePreferredDownload nodeid node
  | .markBlockAsInFlight nodeid hash pindex nTime => s.markBlockAsInFlight nodeid hash pindex nTime
  | .markBlockAsReceived hash => s.markBlockAsReceived hash
  | .startSync nodeid node fReindex recent => s.startSync nodeid node fReindex recent
  | .finalizeNode nodeid => s.finalizeNode nodeid

/-- The process after a list of operations; `none` when it has stopped. -/
def run (ops : List Op) : Option DownloadState := ops.foldl (fun s op => s.bind fun s => s.step op) (some {})

end DownloadState

namespace CNodeState

variable (state : CNodeState)

def validated : Int := (state.vBlocksInFlight.countP fun e => e.2.fValidatedHeaders : Nat)

def preferred : Int := state.fPreferredDownload.toNat

def syncing : Int := state.fSyncStarted.toNat

end CNodeState

namespace DownloadState

variable (s : DownloadState)

def total (weight : CNodeState → Int) : Int := s.mapNodeState.sum fun _ state => weight state

def Mirrors : Prop :=
  ∀ hash nodeid address, s.mapBlocksInFlight.lookup hash = some (nodeid, address) ↔
    ∃ state, s.mapNodeState.lookup nodeid = some state ∧ ∃ entry, (address, entry) ∈ state.vBlocksInFlight ∧ entry.hash = hash

structure Agrees (s : DownloadState) : Prop where
  mirrors : s.Mirrors
  lengths : ∀ nodeid state, s.mapNodeState.lookup nodeid = some state → state.nBlocksInFlight = state.vBlocksInFlight.length
  queued : s.nQueuedValidatedHeaders = s.total CNodeState.validated
  preferred : s.nPreferredDownload = s.total CNodeState.preferred
  syncing : s.nSyncStarted = s.total CNodeState.syncing

def inFlight (nodeid : NodeId) : List (Nat × QueuedBlock) :=
  ((s.mapNodeState.lookup nodeid).map CNodeState.vBlocksInFlight).getD []

structure Kept (s : DownloadState) : Prop where
  mirrors : ∀ hash nodeid address, s.mapBlocksInFlight.lookup hash = some (nodeid, address) ↔
    ∃ entry, (address, entry) ∈ s.inFlight nodeid ∧ entry.hash = hash
  lengths : ∀ nodeid state, s.mapNodeState.lookup nodeid = some state → state.nBlocksInFlight = state.vBlocksInFlight.length
  preferred : s.nPreferredDownload = s.total CNodeState.preferred
  syncing : s.nSyncStarted = s.total CNodeState.syncing
  addresses : ∀ nodeid, ((s.inFlight nodeid).map Prod.fst).Nodup
  fresh : ∀ nodeid, ∀ e ∈ s.inFlight nodeid, e.1 < s.nextAddress

def drift : Int := s.nQueuedValidatedHeaders - s.total CNodeState.validated

variable {s t : DownloadState} {nodeid : NodeId} {state new : CNodeState} {address : Nat}
  {entry : QueuedBlock}

theorem inFlight_of_lookup (found : s.mapNodeState.lookup nodeid = some state) :
    s.inFlight nodeid = state.vBlocksInFlight := by
  simp [inFlight, found]

theorem mirrors_iff : s.Mirrors ↔ ∀ hash nodeid address,
    s.mapBlocksInFlight.lookup hash = some (nodeid, address) ↔ ∃ entry, (address, entry) ∈ s.inFlight nodeid ∧ entry.hash = hash := by
  unfold Mirrors inFlight
  refine forall_congr' fun hash => forall_congr' fun nodeid => forall_congr' fun address => ?_
  cases s.mapNodeState.lookup nodeid <;> simp

theorem Kept.agrees_iff (kept : s.Kept) : s.Agrees ↔ s.drift = 0 := by
  constructor
  · intro agrees
    have equal := agrees.queued
    unfold drift
    omega
  · intro none_
    unfold drift at none_
    exact ⟨mirrors_iff.mpr kept.mirrors, kept.lengths, by omega, kept.preferred, kept.syncing⟩

theorem kept_start : Kept {} where
  mirrors := by simp [inFlight]
  lengths := by simp
  preferred := rfl
  syncing := rfl
  addresses := by simp [inFlight]
  fresh := by simp [inFlight]

theorem total_replace (weight : CNodeState → Int) (found : s.mapNodeState.lookup nodeid = some state)
    (changed : t.mapNodeState = s.mapNodeState.insert nodeid new) :
    t.total weight = s.total weight - weight state + weight new := by
  unfold total
  rw [changed]
  exact StdMap.sum_replace (fun _ state => weight state) new found

theorem inFlight_replace (changed : t.mapNodeState = s.mapNodeState.insert nodeid new) (other : NodeId) :
    t.inFlight other = if other = nodeid then new.vBlocksInFlight else s.inFlight other := by
  unfold inFlight
  rw [changed, StdMap.lookup_insert_ite]
  split <;> rfl

theorem lengths_replace
    (lengths : ∀ nodeid state, s.mapNodeState.lookup nodeid = some state → state.nBlocksInFlight = state.vBlocksInFlight.length)
    (changed : t.mapNodeState = s.mapNodeState.insert nodeid new)
    (here : new.nBlocksInFlight = new.vBlocksInFlight.length) :
    ∀ nodeid state, t.mapNodeState.lookup nodeid = some state → state.nBlocksInFlight = state.vBlocksInFlight.length := by
  intro other state found
  rw [changed, StdMap.lookup_insert_ite] at found
  split at found
  · obtain rfl := Option.some.inj found
    exact here
  · exact lengths other state found

theorem Kept.flag (kept : s.Kept) {nSyncStarted nPreferredDownload : Int}
    (found : s.mapNodeState.lookup nodeid = some state)
    (changed : t = { s with mapNodeState := s.mapNodeState.insert nodeid new, nSyncStarted, nPreferredDownload })
    (list : new.vBlocksInFlight = state.vBlocksInFlight)
    (length : new.nBlocksInFlight = state.nBlocksInFlight)
    (syncing : nSyncStarted = s.nSyncStarted - state.syncing + new.syncing)
    (preferred : nPreferredDownload = s.nPreferredDownload - state.preferred + new.preferred) :
    t.Kept ∧ t.drift = s.drift := by
  have nodes : t.mapNodeState = s.mapNodeState.insert nodeid new := by rw [changed]
  have same : ∀ other, t.inFlight other = s.inFlight other := by
    intro other
    rw [inFlight_replace nodes]
    split
    · rename_i here
      rw [here, list, inFlight_of_lookup found]
    · rfl
  constructor
  · constructor
    · intro hash other address
      rw [same, ← kept.mirrors, changed]
    · exact lengths_replace kept.lengths nodes (by rw [list, length]; exact kept.lengths nodeid state found)
    · rw [total_replace _ found nodes, ← kept.preferred, changed]
      exact preferred
    · rw [total_replace _ found nodes, ← kept.syncing, changed]
      exact syncing
    · intro other
      rw [same]
      exact kept.addresses other
    · intro other
      rw [same, changed]
      exact kept.fresh other
  · have counted : new.validated = state.validated := by
      unfold CNodeState.validated
      rw [list]
    unfold drift
    rw [total_replace _ found nodes, changed]
    dsimp only
    omega

theorem perm_without {l : List (Nat × QueuedBlock)} (nodup : (l.map Prod.fst).Nodup)
    (member : (address, entry) ∈ l) : l.Perm ((address, entry) :: l.filter fun e => e.1 ≠ address) := by
  induction l with
  | nil => cases member
  | cons e rest ih =>
    obtain ⟨absent, nodup⟩ := List.nodup_cons.mp nodup
    rcases List.mem_cons.mp member with rfl | member
    · have others : rest.filter (fun e => e.1 ≠ address) = rest := by
        refine List.filter_eq_self.mpr fun e inside => ?_
        have other : e.1 ≠ address := fun same => absent (List.mem_map.mpr ⟨e, inside, same⟩)
        simpa using other
      rw [List.filter_cons_of_neg (by simp), others]
    · have other : e.1 ≠ address := fun same => absent (List.mem_map.mpr ⟨_, member, same.symm⟩)
      rw [List.filter_cons_of_pos (by simpa using other)]
      exact ((ih nodup member).cons e).trans (List.Perm.swap _ _ _)

theorem Kept.entry_unique (kept : s.Kept) (member : (address, entry) ∈ s.inFlight nodeid)
    (member' : (address, other) ∈ s.inFlight nodeid) : entry = other := by
  have same := List.inj_on_of_nodup_map (kept.addresses nodeid) member member' rfl
  exact (Prod.mk.inj same).2

theorem Kept.takeEntry (kept : s.Kept) (found : s.mapNodeState.lookup nodeid = some state)
    (member : (address, entry) ∈ state.vBlocksInFlight) :
    (s.takeEntry entry.hash nodeid state address entry).Kept ∧
      (s.takeEntry entry.hash nodeid state address entry).drift = s.drift := by
  have nodes : (s.takeEntry entry.hash nodeid state address entry).mapNodeState = s.mapNodeState.insert nodeid _ := rfl
  have here := inFlight_of_lookup found
  have perm := perm_without (by rw [← here]; exact kept.addresses nodeid) member
  have listed : s.mapBlocksInFlight.lookup entry.hash = some (nodeid, address) :=
    (kept.mirrors _ _ _).mpr ⟨entry, by rw [here]; exact member, rfl⟩
  constructor
  · constructor
    · intro hash other address'
      rw [inFlight_replace nodes]
      have erased : (s.takeEntry entry.hash nodeid state address entry).mapBlocksInFlight.lookup hash =
          if hash = entry.hash then none else s.mapBlocksInFlight.lookup hash := StdMap.lookup_erase_ite _ _ _
      rw [erased]
      by_cases taken : hash = entry.hash
      · rw [if_pos taken, taken]
        constructor
        · nofun
        · rintro ⟨e, inside, equal⟩
          split at inside
          · rename_i same
            obtain ⟨inside, apart⟩ := List.mem_filter.mp inside
            have again := (kept.mirrors entry.hash nodeid address').mpr ⟨e, by rw [here]; exact inside, equal⟩
            rw [listed] at again
            injection again with again
            injection again with _ again
            simp [again] at apart
          · rename_i apart
            have again := (kept.mirrors entry.hash other address').mpr ⟨e, inside, equal⟩
            rw [listed] at again
            injection again with again
            injection again with again _
            exact absurd again.symm apart
      · rw [if_neg taken, kept.mirrors]
        refine exists_congr fun e => and_congr_left fun equal => ?_
        split
        · rename_i same
          rw [same, here, List.mem_filter]
          refine ⟨fun inside => ⟨inside, ?_⟩, And.left⟩
          have apart : address' ≠ address := by
            rintro rfl
            have first : (address', e) ∈ s.inFlight nodeid := by rw [here]; exact inside
            have second : (address', entry) ∈ s.inFlight nodeid := by rw [here]; exact member
            exact taken (by rw [← equal, kept.entry_unique first second])
          simpa using apart
        · rfl
    · refine lengths_replace kept.lengths nodes ?_
      have shorter := perm.length_eq
      have before := kept.lengths nodeid state found
      simp only [List.length_cons] at shorter
      dsimp only
      omega
    · rw [total_replace _ found nodes, ← kept.preferred]
      simp [CNodeState.preferred, DownloadState.takeEntry]
    · rw [total_replace _ found nodes, ← kept.syncing]
      simp [CNodeState.syncing, DownloadState.takeEntry]
    · intro other
      rw [inFlight_replace nodes]
      split
      · have before := kept.addresses nodeid
        rw [here] at before
        exact before.sublist (List.filter_sublist.map Prod.fst)
      · exact kept.addresses other
    · intro other e inside
      rw [inFlight_replace nodes] at inside
      split at inside
      · exact kept.fresh nodeid e (by rw [here]; exact (List.mem_filter.mp inside).1)
      · exact kept.fresh other e inside
  · have counted : state.vBlocksInFlight.countP (fun e => e.2.fValidatedHeaders) =
        (state.vBlocksInFlight.filter fun e => e.1 ≠ address).countP (fun e => e.2.fValidatedHeaders) +
          entry.fValidatedHeaders.toNat := by
      rw [perm.countP_eq, List.countP_cons]
      cases entry.fValidatedHeaders <;> rfl
    unfold drift
    rw [total_replace _ found nodes]
    simp only [DownloadState.takeEntry, CNodeState.validated]
    omega

theorem Kept.pushEntry (kept : s.Kept) (found : s.mapNodeState.lookup nodeid = some state)
    (absent : s.mapBlocksInFlight.lookup newentry.hash = none) :
    (s.pushEntry nodeid state newentry).Kept ∧ (s.pushEntry nodeid state newentry).drift = s.drift := by
  have nodes : (s.pushEntry nodeid state newentry).mapNodeState = s.mapNodeState.insert nodeid _ := rfl
  have here := inFlight_of_lookup found
  constructor
  · constructor
    · intro hash other address
      have inserted : (s.pushEntry nodeid state newentry).mapBlocksInFlight.lookup hash =
          if hash = newentry.hash then some (nodeid, s.nextAddress) else s.mapBlocksInFlight.lookup hash :=
        StdMap.lookup_insert_ite _ _ _ _
      have old : ∀ e, (address, e) ∈ s.inFlight other → e.hash ≠ newentry.hash := by
        intro e inside equal
        have listed := (kept.mirrors newentry.hash other address).mpr ⟨e, inside, equal⟩
        rw [absent] at listed
        cases listed
      rw [inserted, inFlight_replace nodes]
      by_cases new : hash = newentry.hash
      · rw [if_pos new, new]
        constructor
        · intro same
          obtain ⟨rfl, rfl⟩ := Prod.mk.inj (Option.some.inj same)
          exact ⟨newentry, by simp, rfl⟩
        · rintro ⟨e, inside, equal⟩
          split at inside
          · rename_i same
            rcases List.mem_append.mp inside with inside | inside
            · exact absurd equal (old e (by rw [same, here]; exact inside))
            · obtain ⟨rfl, -⟩ := Prod.mk.inj (List.mem_singleton.mp inside)
              rw [same]
          · exact absurd equal (old e inside)
      · rw [if_neg new, kept.mirrors]
        refine exists_congr fun e => and_congr_left fun equal => ?_
        split
        · rename_i same
          rw [same, here, List.mem_append, List.mem_singleton]
          refine ⟨Or.inl, fun inside => inside.resolve_right fun last => new ?_⟩
          rw [← equal, (Prod.mk.inj last).2]
        · rfl
    · refine lengths_replace kept.lengths nodes ?_
      have before := kept.lengths nodeid state found
      simp only [List.length_append, List.length_singleton]
      omega
    · rw [total_replace _ found nodes, ← kept.preferred]
      simp [CNodeState.preferred, DownloadState.pushEntry]
    · rw [total_replace _ found nodes, ← kept.syncing]
      simp [CNodeState.syncing, DownloadState.pushEntry]
    · intro other
      rw [inFlight_replace nodes]
      split
      · have before := kept.addresses nodeid
        rw [here] at before
        rw [List.map_append, List.map_singleton]
        refine List.Nodup.append before (List.nodup_singleton _) ?_
        intro address old new
        obtain ⟨e, inside, rfl⟩ := List.mem_map.mp old
        have earlier := kept.fresh nodeid e (by rw [here]; exact inside)
        rw [List.mem_singleton.mp new] at earlier
        exact Nat.lt_irrefl _ earlier
      · exact kept.addresses other
    · intro other e inside
      have next : (s.pushEntry nodeid state newentry).nextAddress = s.nextAddress + 1 := rfl
      rw [inFlight_replace nodes] at inside
      rw [next]
      split at inside
      · rcases List.mem_append.mp inside with inside | inside
        · have earlier := kept.fresh nodeid e (by rw [here]; exact inside)
          omega
        · rw [List.mem_singleton.mp inside]
          exact Nat.lt_succ_self _
      · have earlier := kept.fresh other e inside
        omega
  · unfold drift
    rw [total_replace _ found nodes]
    simp only [DownloadState.pushEntry, CNodeState.validated, List.countP_append, List.countP_singleton]
    cases newentry.fValidatedHeaders
    · simp
    · simp
      omega

theorem Kept.initializeNode (kept : s.Kept) (nodeid : NodeId) :
    (s.initializeNode nodeid).Kept ∧ (s.initializeNode nodeid).drift = s.drift := by
  unfold DownloadState.initializeNode StdMap.insertNew
  split
  · exact ⟨kept, rfl⟩
  · rename_i new
    have absent : s.mapNodeState.lookup nodeid = none := by simpa using new
    have nothing : s.inFlight nodeid = [] := by simp [inFlight, absent]
    have nodes : ({ s with mapNodeState := s.mapNodeState.insert nodeid {} } : DownloadState).mapNodeState =
        s.mapNodeState.insert nodeid {} := rfl
    have same : ∀ other, ({ s with mapNodeState := s.mapNodeState.insert nodeid {} } : DownloadState).inFlight other =
        s.inFlight other := by
      intro other
      rw [inFlight_replace nodes]
      split
      · rename_i here
        rw [here, nothing]
      · rfl
    have totals : ∀ weight : CNodeState → Int, weight {} = 0 →
        ({ s with mapNodeState := s.mapNodeState.insert nodeid {} } : DownloadState).total weight = s.total weight := by
      intro weight zero
      unfold total
      rw [nodes, StdMap.sum_insert_absent _ _ absent, zero, zero_add]
    constructor
    · constructor
      · intro hash other address
        rw [same, ← kept.mirrors]
      · exact lengths_replace kept.lengths nodes rfl
      · rw [totals _ rfl]
        exact kept.preferred
      · rw [totals _ rfl]
        exact kept.syncing
      · intro other
        rw [same]
        exact kept.addresses other
      · intro other
        rw [same]
        exact kept.fresh other
    · unfold drift
      rw [totals _ rfl]

theorem Kept.updatePreferredDownload (kept : s.Kept) (done : s.updatePreferredDownload nodeid node = some t) :
    t.Kept ∧ t.drift = s.drift := by
  simp only [DownloadState.updatePreferredDownload, Option.bind_eq_bind, Option.bind_eq_some_iff, Option.some.injEq] at done
  obtain ⟨state, found, changed⟩ := done
  refine kept.flag found changed.symm rfl rfl ?_ ?_
  · simp [CNodeState.syncing]
  · rfl

theorem Kept.startSync (kept : s.Kept) (done : s.startSync nodeid node fReindex recent = some t) : t.Kept ∧ t.drift = s.drift := by
  simp only [DownloadState.startSync, Option.bind_eq_bind, Option.bind_eq_some_iff] at done
  obtain ⟨state, found, done⟩ := done
  split at done
  · rename_i starts
    have before : state.fSyncStarted = false := by
      simp only [Bool.and_eq_true, Bool.not_eq_true'] at starts
      exact starts.1.1.1.1
    refine kept.flag found (Option.some.inj done).symm rfl rfl ?_ ?_
    · simp [CNodeState.syncing, before]
    · simp [CNodeState.preferred]
  · obtain rfl := Option.some.inj done
    exact ⟨kept, rfl⟩

theorem Kept.markBlockAsReceived (kept : s.Kept) {hash : uint256}
    (done : s.markBlockAsReceived hash = some t) :
    t.Kept ∧ t.drift = s.drift ∧ t.mapBlocksInFlight.lookup hash = none := by
  unfold DownloadState.markBlockAsReceived at done
  split at done
  · rename_i absent
    obtain rfl := Option.some.inj done
    exact ⟨kept, rfl, absent⟩
  · rename_i itInFlight listed
    simp only [Option.bind_eq_bind, Option.bind_eq_some_iff, Option.some.injEq] at done
    obtain ⟨state, found, entry, at_, rfl⟩ := done
    have address : entry.1 = itInFlight.2 := by simpa using List.find?_some at_
    have member := List.mem_of_find?_eq_some at_
    have here := inFlight_of_lookup found
    obtain ⟨other, inside, equal⟩ := (kept.mirrors hash itInFlight.1 itInFlight.2).mp listed
    have mine : (itInFlight.2, entry.2) ∈ state.vBlocksInFlight := by rw [← address]; exact member
    have same := kept.entry_unique inside (by rw [here]; exact mine)
    rw [← equal, same]
    obtain ⟨kept', drift'⟩ := kept.takeEntry found mine
    exact ⟨kept', drift', by simp [DownloadState.takeEntry]⟩

theorem Kept.markBlockAsInFlight (kept : s.Kept) {hash : uint256} {nTime : Int}
    (done : s.markBlockAsInFlight nodeid hash pindex nTime = some t) : t.Kept ∧ t.drift = s.drift := by
  simp only [DownloadState.markBlockAsInFlight, Option.bind_eq_bind, Option.bind_eq_some_iff, Option.some.injEq] at done
  obtain ⟨-, -, mid, received, state, found, rfl⟩ := done
  obtain ⟨kept, same, absent⟩ := kept.markBlockAsReceived received
  rw [← same]
  exact kept.pushEntry found absent

theorem Kept.finalizeNode (kept : s.Kept) (done : s.finalizeNode nodeid = some t) :
    t.Kept ∧ t.drift = s.drift + ((s.inFlight nodeid).countP fun e => e.2.fValidatedHeaders : Nat) := by
  simp only [DownloadState.finalizeNode, Option.bind_eq_bind, Option.bind_eq_some_iff, Option.some.injEq] at done
  obtain ⟨state, found, changed⟩ := done
  have nodes : t.mapNodeState = s.mapNodeState.erase nodeid := by rw [← changed]
  have here := inFlight_of_lookup found
  have lists : ∀ other, t.inFlight other = if other = nodeid then [] else s.inFlight other := by
    intro other
    unfold inFlight
    rw [nodes, StdMap.lookup_erase_ite]
    split <;> rfl
  have totals : ∀ weight : CNodeState → Int, t.total weight = s.total weight - weight state := by
    intro weight
    have parts := StdMap.sum_erase (fun _ state => weight state) s.mapNodeState nodeid
    rw [StdMap.weightAt, found, Option.elim_some] at parts
    unfold total
    rw [nodes, parts, add_sub_cancel_left]
  constructor
  · constructor
    · intro hash other address
      have erased : t.mapBlocksInFlight.lookup hash = some (other, address) ↔
          s.mapBlocksInFlight.lookup hash = some (other, address) ∧ hash ∉ state.vBlocksInFlight.map fun e => e.2.hash := by
        rw [← changed]
        exact StdMap.lookup_foldl_erase (fun e : Nat × QueuedBlock => e.2.hash) _ _ _ _
      rw [erased, lists]
      constructor
      · rintro ⟨listed, others⟩
        obtain ⟨e, inside, equal⟩ := (kept.mirrors hash other address).mp listed
        rw [if_neg]
        · exact ⟨e, inside, equal⟩
        · rintro rfl
          exact others (List.mem_map.mpr ⟨(address, e), by rw [← here]; exact inside, equal⟩)
      · rintro ⟨e, inside, equal⟩
        split at inside
        · cases inside
        · rename_i apart
          have listed := (kept.mirrors hash other address).mpr ⟨e, inside, equal⟩
          refine ⟨listed, fun taken => apart ?_⟩
          obtain ⟨mine, member, same⟩ := List.mem_map.mp taken
          have again := (kept.mirrors hash nodeid mine.1).mpr ⟨mine.2, by rw [here]; exact member, same⟩
          rw [listed] at again
          exact (Prod.mk.inj (Option.some.inj again)).1
    · intro other state' found'
      rw [nodes, StdMap.lookup_erase_ite] at found'
      split at found'
      · cases found'
      · exact kept.lengths other state' found'
    · rw [totals, ← kept.preferred, ← changed]
      rfl
    · rw [totals, ← kept.syncing, ← changed]
      rfl
    · intro other
      rw [lists]
      split
      · exact List.nodup_nil
      · exact kept.addresses other
    · intro other e inside
      have next : t.nextAddress = s.nextAddress := by rw [← changed]
      rw [lists] at inside
      rw [next]
      split at inside
      · cases inside
      · exact kept.fresh other e inside
  · have counter : t.nQueuedValidatedHeaders = s.nQueuedValidatedHeaders := by rw [← changed]
    unfold drift
    rw [totals, counter, here, CNodeState.validated]
    omega

def leaves (s : DownloadState) : Op → Nat
  | .finalizeNode nodeid => (s.inFlight nodeid).countP fun e => e.2.fValidatedHeaders
  | _ => 0

theorem Kept.step (kept : s.Kept) {op : Op} (done : s.step op = some t) :
    t.Kept ∧ t.drift = s.drift + s.leaves op := by
  cases op with
  | initializeNode nodeid =>
    obtain rfl := Option.some.inj done
    obtain ⟨kept', same⟩ := kept.initializeNode nodeid
    exact ⟨kept', by simp [leaves, same]⟩
  | updatePreferredDownload nodeid node =>
    obtain ⟨kept', same⟩ := kept.updatePreferredDownload done
    exact ⟨kept', by simp [leaves, same]⟩
  | markBlockAsInFlight nodeid hash pindex nTime =>
    obtain ⟨kept', same⟩ := kept.markBlockAsInFlight done
    exact ⟨kept', by simp [leaves, same]⟩
  | markBlockAsReceived hash =>
    obtain ⟨kept', same, -⟩ := kept.markBlockAsReceived done
    exact ⟨kept', by simp [leaves, same]⟩
  | startSync nodeid node fReindex recent =>
    obtain ⟨kept', same⟩ := kept.startSync done
    exact ⟨kept', by simp [leaves, same]⟩
  | finalizeNode nodeid => exact kept.finalizeNode done

def Spares (s : DownloadState) (op : Op) : Prop :=
  ∀ nodeid, op = .finalizeNode nodeid → ∀ e ∈ s.inFlight nodeid, e.2.fValidatedHeaders = false

theorem leaves_eq_zero_iff : s.leaves op = 0 ↔ s.Spares op := by
  cases op with
  | finalizeNode nodeid => simp [leaves, Spares, List.countP_eq_zero]
  | _ => simp [leaves, Spares]

/-- The map, the lists and the counters agree throughout a run exactly when no peer leaves it with such a block in flight. -/
theorem agrees_throughout_iff (ops : List Op) :
    (∀ before, before <+: ops → ∀ s, run before = some s → s.Agrees) ↔
      ∀ before op, before ++ [op] <+: ops → ∀ s, run before = some s → s.Spares op := by
  refine @Run.kept_iff_meets (Option DownloadState) Op (fun o op => o.bind fun s => s.step op) (fun o op => ∀ s, o = some s → s.Spares op) (some {})
    (fun o => ∀ s, o = some s → s.Kept) (fun o => ∀ s, o = some s → s.Agrees) ?_ ?_ ?_ ?_ ops
  · rintro s ⟨⟩
    exact kept_start
  · intro o op kept t done
    obtain ⟨s, rfl, done⟩ := Option.bind_eq_some_iff.mp done
    exact ((kept s rfl).step done).1
  · rintro s ⟨⟩
    exact kept_start.agrees_iff.mpr rfl
  · intro o op kept agrees
    cases o with
    | none => simp
    | some s =>
      have even := (kept s rfl).agrees_iff.mp (agrees s rfl)
      simp only [Option.bind_some, Option.some.injEq, forall_eq']
      rw [← leaves_eq_zero_iff]
      cases stepped : s.step op with
      | none =>
        -- A process that stops is at a peer without a state, or not at a peer that leaves.
        cases op with
        | finalizeNode nodeid =>
          have absent : s.mapNodeState.lookup nodeid = none := by
            by_contra present
            obtain ⟨state, found⟩ := Option.ne_none_iff_exists'.mp present
            simp [step, DownloadState.finalizeNode, found] at stepped
          simp [leaves, inFlight, absent]
        | _ => simp [leaves]
      | some t =>
        obtain ⟨kept', drifted⟩ := (kept s rfl).step stepped
        simp only [Option.some.injEq, forall_eq']
        rw [kept'.agrees_iff]
        omega

/-- After the only peer has left, one validated header is still counted. -/
theorem validated_header_left : ∃ s, run [.initializeNode 1, .markBlockAsInFlight 1 7 (some 7) 0, .finalizeNode 1] = some s ∧
    s.mapNodeState = ∅ ∧ s.nQueuedValidatedHeaders = 1 ∧ ¬s.Agrees := by
  refine ⟨_, rfl, rfl, rfl, fun agrees => ?_⟩
  exact absurd agrees.queued (by decide)

end DownloadState

end SchillingCoin
