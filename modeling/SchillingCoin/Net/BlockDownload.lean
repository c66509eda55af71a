import SchillingCoin.Chain.IndexChain
import SchillingCoin.Net.BlocksInFlight

/-!
Which blocks to ask a peer for, after `LastCommonAncestor` and `FindNextBlocksToDownload` in `main.cpp`. In the functions `none` is a null
pointer that is followed, a failed assertion, or a loop that is not over after its bound.
-/

namespace SchillingCoin

def MAX_BLOCKS_IN_TRANSIT_PER_PEER : Int := 512
def BLOCK_DOWNLOAD_WINDOW : Int := 1024

namespace BlockTree

def meetLoop (t : BlockTree) : (bound : Nat) → Option IndexPtr → Option IndexPtr → Option (Option IndexPtr)
  | n, some pa, some pb =>
    if pa = pb then some (some pa)
    else
      match n with
      | 0 => none
      | n + 1 => (t.entry pa).bind fun ea => (t.entry pb).bind fun eb => t.meetLoop n ea.pprev eb.pprev
  | _, none, none => some none
  | _, _, _ => none

def lastCommonAncestor (t : BlockTree) (pa pb : IndexPtr) : Option (Option IndexPtr) :=
  (t.entry pa).bind fun ea =>
    (t.entry pb).bind fun eb =>
      if ea.nHeight > eb.nHeight then (t.getAncestorAt pa eb.nHeight).bind fun pa => t.meetLoop eb.nHeight pa (some pb)
      else if eb.nHeight > ea.nHeight then (t.getAncestorAt pb ea.nHeight).bind fun pb => t.meetLoop ea.nHeight (some pa) pb
      else t.meetLoop ea.nHeight (some pa) (some pb)

end BlockTree

structure DownloadView where
  index : BlockMap
  chainActive : IndexChain
  pindexBestHeader : Option IndexPtr
  mapBlocksInFlight : StdMap uint256 (NodeId × Nat)
  isInitialBlockDownload : Bool

structure PeerBlocks where
  pindexBestKnownBlock : Option IndexPtr := none
  hashLastUnknownBlock : uint256 := 0
  pindexLastCommonBlock : Option IndexPtr := none
  deriving DecidableEq, Repr

structure FetchWalk where
  vBlocks : List IndexPtr
  pindexLastCommonBlock : IndexPtr
  waitingfor : NodeId
  nodeStaller : NodeId
  deriving DecidableEq, Repr

structure DownloadResult where
  state : PeerBlocks
  vBlocks : List IndexPtr
  nodeStaller : NodeId
  deriving DecidableEq, Repr

namespace DownloadView

variable (v : DownloadView)

def entry (p : IndexPtr) : Option TreeEntry := v.index.tree.entry p

def inFlight (p : IndexPtr) : Option (NodeId × Nat) := v.mapBlocksInFlight.lookup (v.index.phashBlock p)

variable (state : PeerBlocks) (count : Nat) (nodeid : NodeId)

/-- The block at an address announced before becomes the best known one unless that has more work. -/
def announced (itOld : IndexPtr) : Option PeerBlocks :=
  (v.entry itOld).bind fun e =>
    if e.nChainWork > 0 then
      match state.pindexBestKnownBlock with
      | none => some { state with pindexBestKnownBlock := some itOld, hashLastUnknownBlock := 0 }
      | some best =>
        (v.entry best).map fun eBest =>
          { state with pindexBestKnownBlock := if e.nChainWork ≥ eBest.nChainWork then some itOld else some best, hashLastUnknownBlock := 0 }
    else some state

def processBlockAvailability : Option PeerBlocks :=
  if state.hashLastUnknownBlock ≠ 0 then
    match v.index.mapBlockIndex.lookup state.hashLastUnknownBlock with
    | none => some state
    | some itOld => v.announced state itOld
  else some state

def pushFetch (to_fetch : List IndexPtr) (pIndexWalk : IndexPtr) : List IndexPtr :=
  (if to_fetch.length ≥ count then to_fetch.tail else to_fetch) ++ [pIndexWalk]

def walkDown (max_height : Int) (count : Nat) : (bound : Nat) → List IndexPtr → Option IndexPtr → Option (List IndexPtr)
  | _, to_fetch, none => some to_fetch
  | 0, _, some _ => none
  | n + 1, to_fetch, some pIndexWalk =>
    (v.entry pIndexWalk).bind fun e =>
      if e.nHeight > max_height then walkDown max_height count n to_fetch e.pprev
      else
        (v.chainActive.contains v.index.tree pIndexWalk).bind fun inChain =>
          if inChain then some to_fetch
          else if !e.isValid BLOCK_VALID_TREE then some to_fetch
          else
            let to_fetch := if !e.haveData && (v.inFlight pIndexWalk).isNone then pushFetch count to_fetch pIndexWalk else to_fetch
            walkDown max_height count n to_fetch e.pprev

/-- The special case of the initial download, when nothing is known about the peer. -/
def initialBlocks (nStartingHeight : Int) (count : Nat) (header : IndexPtr) : Option (List IndexPtr) :=
  (v.entry header).bind fun best =>
    (v.chainActive.tip.bind v.entry).bind fun tip =>
      let max_height : Int := best.nHeight - MAX_BLOCKS_IN_TRANSIT_PER_PEER
      let max_height := min max_height nStartingHeight
      let max_height := min max_height (tip.nHeight + MAX_BLOCKS_IN_TRANSIT_PER_PEER * 16)
      v.walkDown max_height count (best.nHeight + 1) [] (some header)

def fillBack : Nat → IndexPtr → List IndexPtr → Option (List IndexPtr)
  | 0, pindex, rest => some (pindex :: rest)
  | i + 1, pindex, rest => ((v.entry pindex).bind TreeEntry.pprev).bind fun pprev => fillBack i pprev (pindex :: rest)

/-- One pass over `vToFetch`. The flag says that the function returns. -/
def scan (nodeid : NodeId) (count : Nat) (nWindowEnd : Int) : List IndexPtr → FetchWalk → Option (FetchWalk × Bool)
  | [], w => some (w, false)
  | pindex :: vToFetch, w =>
    (v.entry pindex).bind fun e =>
      if !e.isValid BLOCK_VALID_TREE then some (w, true)
      else if e.haveData then scan nodeid count nWindowEnd vToFetch (if e.nChainTx ≠ 0 then { w with pindexLastCommonBlock := pindex } else w)
      else
        match v.inFlight pindex with
        | none =>
          if e.nHeight > nWindowEnd then
            some (if w.vBlocks.length = 0 ∧ w.waitingfor ≠ nodeid then { w with nodeStaller := w.waitingfor } else w, true)
          else
            let w := { w with vBlocks := w.vBlocks ++ [pindex] }
            if w.vBlocks.length = count then some (w, true) else scan nodeid count nWindowEnd vToFetch w
        | some queued => scan nodeid count nWindowEnd vToFetch (if w.waitingfor = -1 then { w with waitingfor := queued.1 } else w)

/-- How many blocks to read; the difference of the sizes is narrowed to an `int`. -/
def batchSize (nMaxHeight : Int) (nHeight size : Nat) : Int :=
  min (nMaxHeight - nHeight) (max (Int.bmod ((count - size : Nat) : Int) (2 ^ 32)) 128)

def fetchLoop (nodeid : NodeId) (count : Nat) (best : IndexPtr) (nWindowEnd nMaxHeight : Int) :
    (bound : Nat) → IndexPtr → FetchWalk → Option FetchWalk
  | bound, pindexWalk, w =>
    (v.entry pindexWalk).bind fun e =>
      if e.nHeight < nMaxHeight then
        match bound with
        | 0 => none
        | n + 1 =>
          let nToFetch := batchSize count nMaxHeight e.nHeight w.vBlocks.length
          (v.index.tree.getAncestorAt best (e.nHeight + nToFetch)).join.bind fun next =>
            (v.fillBack (nToFetch.toNat - 1) next []).bind fun vToFetch =>
              (v.scan nodeid count nWindowEnd vToFetch w).bind fun scanned =>
                if scanned.2 then some scanned.1 else fetchLoop nodeid count best nWindowEnd nMaxHeight n next scanned.1
      else some w

def fetchFrom (count : Nat) (best last : IndexPtr) (vBlocks : List IndexPtr) (nodeStaller : NodeId) : Option FetchWalk :=
  (v.entry last).bind fun eLast =>
    (v.entry best).bind fun eBest =>
      let nWindowEnd : Int := eLast.nHeight + BLOCK_DOWNLOAD_WINDOW
      let nMaxHeight : Int := min eBest.nHeight (nWindowEnd + 1)
      v.fetchLoop nodeid count best nWindowEnd nMaxHeight eBest.nHeight last
        { vBlocks, pindexLastCommonBlock := last, waitingfor := -1, nodeStaller }

/-- What follows once the best known block is found to have as much work as the tip. -/
def fetchInteresting (count : Nat) (state : PeerBlocks) (best : IndexPtr) (vBlocks : List IndexPtr) (nodeStaller : NodeId) :
    Option DownloadResult :=
  (v.entry best).bind fun eBest =>
    -- Guessing wrong in either direction is not a problem.
    (state.pindexLastCommonBlock.or (v.chainActive.at_ (min eBest.nHeight v.chainActive.height))).bind fun guess =>
      (v.index.tree.lastCommonAncestor guess best).join.bind fun last =>
        if last = best then some { state := { state with pindexLastCommonBlock := some last }, vBlocks, nodeStaller }
        else
          (v.fetchFrom nodeid count best last vBlocks nodeStaller).map fun w =>
            { state := { state with pindexLastCommonBlock := some w.pindexLastCommonBlock }, vBlocks := w.vBlocks, nodeStaller := w.nodeStaller }

def findAtPeer (count : Nat) (state : PeerBlocks) (vBlocks : List IndexPtr) (nodeStaller : NodeId) : Option DownloadResult :=
  match state.pindexBestKnownBlock with
  | none => some { state, vBlocks, nodeStaller }
  | some best =>
    (v.entry best).bind fun eBest =>
      (v.chainActive.tip.bind v.entry).bind fun tip =>
        if eBest.nChainWork < tip.nChainWork then some { state, vBlocks, nodeStaller }
        else v.fetchInteresting nodeid count state best vBlocks nodeStaller

def initialHeader : Option IndexPtr :=
  if state.pindexBestKnownBlock = none ∧ v.isInitialBlockDownload then v.pindexBestHeader else none

def findNextBlocksToDownload (nStartingHeight : Int) (count : Nat) (state : PeerBlocks) (vBlocks : List IndexPtr)
    (nodeStaller : NodeId) : Option DownloadResult :=
  if count = 0 then some { state, vBlocks, nodeStaller }
  else
    (v.processBlockAvailability state).bind fun state =>
      match v.initialHeader state with
      | some header => (v.initialBlocks nStartingHeight count header).map fun to_fetch => { state, vBlocks := vBlocks ++ to_fetch, nodeStaller }
      | none => v.findAtPeer nodeid count state vBlocks nodeStaller

end DownloadView

namespace BlockTree

variable {t : BlockTree} {built : Finset IndexPtr}

variable {p q a : IndexPtr} {e ea : TreeEntry}

theorem Grown.entry_zero (grown : t.Grown built) (found : t.entry p = some e) (root : e.nHeight = 0) :
    p = t.genesis := by
  have walked := grown.genesis_isAncestor found
  rw [root] at walked
  exact Option.some.inj walked

theorem Rooted.parent_of_pos (rooted : t.Rooted) (found : t.entry p = some e) (positive : 0 < e.nHeight) :
    ∃ q parent, e.pprev = some q ∧ t.entry q = some parent ∧ e.nHeight = parent.nHeight + 1 := by
  have up := rooted p e found
  cases above : e.pprev with
  | none =>
    rw [above] at up
    dsimp only at up
    omega
  | some q =>
    rw [above] at up
    obtain ⟨parent, here, height⟩ := up
    exact ⟨q, parent, rfl, here, height⟩

theorem isAncestor_parent (found : t.entry p = some e) (parent : e.pprev = some q) : t.IsAncestor q p :=
  ⟨1, by rw [walkBack, found, Option.bind_some, parent, Option.bind_some, walkBack]⟩

theorem IsAncestor.of_parent (found : t.entry p = some e) (parent : e.pprev = some q)
    (ancestor : t.IsAncestor a p) (proper : a ≠ p) : t.IsAncestor a q := by
  obtain ⟨n, walked⟩ := ancestor
  cases n with
  | zero => exact absurd (Option.some.inj walked).symm proper
  | succ n =>
    rw [walkBack, found, Option.bind_some, parent, Option.bind_some] at walked
    exact ⟨n, walked⟩

theorem Rooted.isAncestor_height (rooted : t.Rooted) (found : t.entry p = some e)
    (ancestor : t.IsAncestor a p) : ∃ ea, t.entry a = some ea ∧ ea.nHeight ≤ e.nHeight := by
  obtain ⟨n, walked⟩ := ancestor
  obtain ⟨ea, there, sum⟩ := rooted.walkBack_height found walked
  exact ⟨ea, there, by omega⟩

theorem Rooted.isAncestor_same (rooted : t.Rooted) (found : t.entry p = some e)
    (foundA : t.entry a = some ea) (ancestor : t.IsAncestor a p) (level : ea.nHeight = e.nHeight) :
    a = p := by
  obtain ⟨n, walked⟩ := ancestor
  obtain ⟨ea', there, sum⟩ := rooted.walkBack_height found walked
  rw [foundA] at there
  obtain rfl := Option.some.inj there
  obtain rfl : n = 0 := by omega
  exact (Option.some.inj walked).symm

theorem LastCommon.refl (t : BlockTree) (p : IndexPtr) : t.LastCommon p p p :=
  ⟨isAncestor_refl t p, isAncestor_refl t p, fun _ left _ => left⟩

theorem meetLoop_spec (grown : t.Grown built) (foundA : t.entry a = some ea) (foundB : t.entry b = some eb)
    (heightA : ea.nHeight = n) (heightB : eb.nHeight = n) :
    ∃ f, t.meetLoop n (some a) (some b) = some (some f) ∧ t.LastCommon f a b := by
  induction n generalizing a b ea eb with
  | zero =>
    have same : a = b := (grown.entry_zero foundA heightA).trans (grown.entry_zero foundB heightB).symm
    rw [meetLoop, if_pos same, ← same]
    exact ⟨a, rfl, .refl t a⟩
  | succ n ih =>
    rw [meetLoop]
    by_cases same : a = b
    · rw [if_pos same, ← same]
      exact ⟨a, rfl, .refl t a⟩
    · rw [if_neg same]
      have rooted := grown.skips.rooted
      obtain ⟨qa, parentA, upA, foundQA, levelA⟩ := rooted.parent_of_pos foundA (by omega)
      obtain ⟨qb, parentB, upB, foundQB, levelB⟩ := rooted.parent_of_pos foundB (by omega)
      obtain ⟨f, met, common⟩ := ih foundQA foundQB (by omega) (by omega)
      refine ⟨f, ?_, common.left.trans (isAncestor_parent foundA upA), common.right.trans (isAncestor_parent foundB upB), ?_⟩
      · rw [foundA, Option.bind_some, foundB, Option.bind_some, upA, upB]
        exact met
      · intro g left right
        -- Neither block is an ancestor of the other, since they are as high as each other.
        have notA : g ≠ a := by
          intro isA
          exact same (rooted.isAncestor_same foundB foundA (isA ▸ right) (by omega))
        have notB : g ≠ b := by
          intro isB
          exact same (rooted.isAncestor_same foundA foundB (isB ▸ left) (by omega)).symm
        exact common.last g (left.of_parent foundA upA notA) (right.of_parent foundB upB notB)

theorem Grown.ancestor_at (grown : t.Grown built) (found : t.entry p = some e) {h : Nat}
    (low : h ≤ e.nHeight) :
    ∃ a ea, t.getAncestorAt p h = some (some a) ∧ t.IsAncestor a p ∧ t.entry a = some ea ∧ ea.nHeight = h := by
  obtain ⟨a, walked, looked⟩ := grown.skips.getAncestorAt_eq (grown.all p e found) found (show 0 ≤ (h : Int) ∧ (h : Int) ≤ e.nHeight by omega)
  obtain ⟨ea, there, sum⟩ := grown.skips.rooted.walkBack_height found walked
  exact ⟨a, ea, looked, ⟨_, walked⟩, there, by omega⟩

theorem LastCommon.extend (rooted : t.Rooted) (common : t.LastCommon f a q) (ancestor : t.IsAncestor a p)
    (foundP : t.entry p = some e) (foundA : t.entry a = some ea) (foundQ : t.entry q = some eq)
    (level : ea.nHeight = eq.nHeight) : t.LastCommon f p q := by
  refine ⟨common.left.trans ancestor, common.right, fun g left right => common.last g ?_ right⟩
  obtain ⟨eg, foundG, low⟩ := rooted.isAncestor_height foundQ right
  exact rooted.isAncestor_of_le foundP foundG foundA left ancestor (by omega)

theorem LastCommon.symm (common : t.LastCommon f p q) : t.LastCommon f q p :=
  ⟨common.right, common.left, fun g left right => common.last g right left⟩

theorem lastCommonAncestor_spec (grown : t.Grown built) (foundA : t.entry a = some ea) (foundB : t.entry b = some eb) :
    ∃ f, t.lastCommonAncestor a b = some (some f) ∧ t.LastCommon f a b := by
  have rooted := grown.skips.rooted
  unfold lastCommonAncestor
  rw [foundA, Option.bind_some, foundB, Option.bind_some]
  by_cases higher : ea.nHeight > eb.nHeight
  · obtain ⟨a', ea', looked, ancestor, foundA', level⟩ := grown.ancestor_at foundA (Nat.le_of_lt higher)
    obtain ⟨f, met, common⟩ := meetLoop_spec grown foundA' foundB level rfl
    rw [if_pos higher, looked, Option.bind_some]
    exact ⟨f, met, common.extend rooted ancestor foundA foundA' foundB level⟩
  · rw [if_neg higher]
    by_cases lower : eb.nHeight > ea.nHeight
    · obtain ⟨b', eb', looked, ancestor, foundB', level⟩ := grown.ancestor_at foundB (Nat.le_of_lt lower)
      obtain ⟨f, met, common⟩ := meetLoop_spec grown foundA foundB' rfl level
      rw [if_pos lower, looked, Option.bind_some]
      exact ⟨f, met, (common.symm.extend rooted ancestor foundB foundB' foundA level).symm⟩
    · rw [if_neg lower]
      exact meetLoop_spec grown foundA foundB rfl (by omega)

end BlockTree

namespace DownloadView

open BlockTree

variable {v : DownloadView} {built : Finset IndexPtr}

structure Valid (v : DownloadView) (built : Finset IndexPtr) : Prop where
  grown : v.index.tree.Grown built
  chain : ∃ tip, IndexChain.Represents v.index.tree v.chainActive (some tip)
  header : ∀ p, v.pindexBestHeader = some p → ∃ e, v.entry p = some e

structure Known (v : DownloadView) (state : PeerBlocks) : Prop where
  best : ∀ p, state.pindexBestKnownBlock = some p → ∃ e, v.entry p = some e
  last : ∀ p, state.pindexLastCommonBlock = some p → ∃ e, v.entry p = some e

structure Fetchable (v : DownloadView) (top p : IndexPtr) (e : TreeEntry) : Prop where
  found : v.entry p = some e
  missing : e.haveData = false
  free : v.inFlight p = none
  ancestor : v.index.tree.IsAncestor p top

def Interesting (v : DownloadView) (state : PeerBlocks) : Prop :=
  ∃ best eBest tip eTip, state.pindexBestKnownBlock = some best ∧ v.entry best = some eBest ∧ v.chainActive.tip = some tip ∧
    v.entry tip = some eTip ∧ eTip.nChainWork ≤ eBest.nChainWork

theorem Valid.tip (valid : v.Valid built) : ∃ tip e, v.chainActive.tip = some tip ∧ v.entry tip = some e ∧
    IndexChain.Represents v.index.tree v.chainActive (some tip) := by
  obtain ⟨tip, represents⟩ := valid.chain
  obtain ⟨e, found, length, below⟩ := represents
  refine ⟨tip, e, ?_, found, e, found, length, below⟩
  have last := below e.nHeight (Nat.le_refl _)
  rw [Nat.sub_self, walkBack] at last
  rw [IndexChain.tip, List.getLast?_eq_getElem?, length, Nat.add_sub_cancel, last]
  rfl

variable {state : PeerBlocks} {header : IndexPtr} {count : Nat} {to_fetch : List IndexPtr}
  {eBest : TreeEntry}

theorem announced_spec (known : v.Known state) (found : v.entry itOld = some e) :
    ∃ state', v.announced state itOld = some state' ∧ v.Known state' ∧ state'.pindexLastCommonBlock = state.pindexLastCommonBlock := by
  unfold announced
  rw [found, Option.bind_some]
  by_cases worked : e.nChainWork > 0
  · rw [if_pos worked]
    cases before : state.pindexBestKnownBlock with
    | none =>
      refine ⟨_, rfl, ⟨fun p same => ?_, known.last⟩, rfl⟩
      obtain rfl := Option.some.inj same
      exact ⟨e, found⟩
    | some best =>
      obtain ⟨eBest, here⟩ := known.best best before
      dsimp only
      rw [here, Option.map_some]
      refine ⟨_, rfl, ⟨fun p same => ?_, known.last⟩, rfl⟩
      dsimp only at same
      split at same
      · obtain rfl := Option.some.inj same
        exact ⟨e, found⟩
      · obtain rfl := Option.some.inj same
        exact ⟨eBest, here⟩
  · rw [if_neg worked]
    exact ⟨state, rfl, known, rfl⟩

theorem processBlockAvailability_spec (known : v.Known state) :
    ∃ state', v.processBlockAvailability state = some state' ∧ v.Known state' ∧ state'.pindexLastCommonBlock = state.pindexLastCommonBlock := by
  unfold processBlockAvailability
  by_cases unknown : state.hashLastUnknownBlock ≠ 0
  · rw [if_pos unknown]
    cases looked : v.index.mapBlockIndex.lookup state.hashLastUnknownBlock with
    | none => exact ⟨state, rfl, known, rfl⟩
    | some itOld =>
      obtain ⟨e, found⟩ := Option.isSome_iff_exists.mp ((v.index.keyed state.hashLastUnknownBlock itOld).mp looked).1
      exact announced_spec known found
  · rw [if_neg unknown]
    exact ⟨state, rfl, known, rfl⟩

structure Collected (v : DownloadView) (header : IndexPtr) (count h : Nat) (to_fetch : List IndexPtr) : Prop where
  few : to_fetch.length ≤ count
  distinct : to_fetch.Nodup
  fetchable : ∀ p ∈ to_fetch, ∃ e, v.Fetchable header p e ∧ h ≤ e.nHeight

theorem Collected.lower {h h' : Nat} (inv : v.Collected header count h to_fetch) (low : h' ≤ h) :
    v.Collected header count h' to_fetch := by
  refine ⟨inv.few, inv.distinct, fun p member => ?_⟩
  obtain ⟨e, fetchable, high⟩ := inv.fetchable p member
  exact ⟨e, fetchable, by omega⟩

theorem Collected.push (positive : 0 < count) (inv : v.Collected header count (h + 1) to_fetch)
    (fetchable : v.Fetchable header p e) (level : e.nHeight = h) : v.Collected header count h (pushFetch count to_fetch p) := by
  have kept : ∀ q ∈ (if to_fetch.length ≥ count then to_fetch.tail else to_fetch), q ∈ to_fetch := by
    intro q member
    split at member
    · exact List.mem_of_mem_tail member
    · exact member
  have other : p ∉ (if to_fetch.length ≥ count then to_fetch.tail else to_fetch) := by
    intro member
    obtain ⟨e', fetchable', high⟩ := inv.fetchable p (kept p member)
    have same := fetchable.found.symm.trans fetchable'.found
    obtain rfl := Option.some.inj same
    omega
  refine ⟨?_, ?_, fun q member => ?_⟩
  · have few := inv.few
    unfold pushFetch
    rw [List.length_append, List.length_singleton]
    split
    · rw [List.length_tail]
      omega
    · omega
  · unfold pushFetch
    apply List.nodup_append.mpr
    refine ⟨?_, List.nodup_singleton p, fun q member q' last => ?_⟩
    · split
      · exact inv.distinct.tail
      · exact inv.distinct
    · obtain rfl := List.mem_singleton.mp last
      intro same
      exact other (same ▸ member)
  · rcases List.mem_append.mp member with earlier | last
    · obtain ⟨e', fetchable', high⟩ := inv.fetchable q (kept q earlier)
      exact ⟨e', fetchable', by omega⟩
    · obtain rfl := List.mem_singleton.mp last
      exact ⟨e, fetchable, by omega⟩

theorem contains_some (found : v.entry p = some e) : ∃ inChain, v.chainActive.contains v.index.tree p = some inChain := by
  refine ⟨decide (v.chainActive.at_ e.nHeight = some p), ?_⟩
  rw [IndexChain.contains, show v.index.tree.entry p = some e from found, Option.map_some]

theorem walkDown_spec (valid : v.Valid built) (positive : 0 < count) (found : v.entry p = some e)
    (ancestor : v.index.tree.IsAncestor p header) (enough : e.nHeight < n)
    (inv : v.Collected header count (e.nHeight + 1) to_fetch) :
    ∃ blocks, v.walkDown max_height count n to_fetch (some p) = some blocks ∧ v.Collected header count 0 blocks := by
  induction n generalizing p e to_fetch with
  | zero => omega
  | succ n ih =>
    -- The rest of the walk, whatever was collected at this block.
    have onward : ∀ to_fetch', v.Collected header count e.nHeight to_fetch' →
        ∃ blocks, v.walkDown max_height count n to_fetch' e.pprev = some blocks ∧ v.Collected header count 0 blocks := by
      intro to_fetch' inv'
      cases parent : e.pprev with
      | none =>
        refine ⟨to_fetch', ?_, inv'.lower (Nat.zero_le _)⟩
        cases n <;> rfl
      | some q =>
        have up := valid.grown.skips.rooted p e found
        rw [parent] at up
        obtain ⟨entry, here, height⟩ := up
        have lower : v.Collected header count (entry.nHeight + 1) to_fetch' := inv'.lower (by omega)
        exact ih here ((isAncestor_parent found parent).trans ancestor) (by omega) lower
    have same := inv.lower (Nat.le_succ e.nHeight)
    rw [walkDown, found, Option.bind_some]
    by_cases high : e.nHeight > max_height
    · rw [if_pos high]
      exact onward to_fetch same
    · rw [if_neg high]
      obtain ⟨inChain, contained⟩ := contains_some found
      rw [contained, Option.bind_some]
      cases inChain with
      | true => exact ⟨to_fetch, rfl, inv.lower (Nat.zero_le _)⟩
      | false =>
        rw [if_neg Bool.false_ne_true]
        by_cases invalid : (!e.isValid BLOCK_VALID_TREE) = true
        · rw [if_pos invalid]
          exact ⟨to_fetch, rfl, inv.lower (Nat.zero_le _)⟩
        · rw [if_neg invalid]
          by_cases wanted : (!e.haveData && (v.inFlight p).isNone) = true
          · simp only [wanted, if_true]
            rw [Bool.and_eq_true, Bool.not_eq_true', Option.isNone_iff_eq_none] at wanted
            exact onward _ (inv.push positive ⟨found, wanted.1, wanted.2, ancestor⟩ rfl)
          · simp only [wanted, if_false, Bool.false_eq_true]
            exact onward to_fetch same

theorem initialBlocks_spec (valid : v.Valid built) (found : v.entry header = some e) (nStartingHeight : Int)
    (positive : 0 < count) :
    ∃ blocks, v.initialBlocks nStartingHeight count header = some blocks ∧ v.Collected header count 0 blocks := by
  obtain ⟨tip, eTip, isTip, foundTip, _⟩ := valid.tip
  unfold initialBlocks
  rw [found, Option.bind_some, isTip, Option.bind_some, foundTip, Option.bind_some]
  exact walkDown_spec valid positive found (isAncestor_refl _ header) (Nat.lt_succ_self _) ⟨Nat.zero_le _, List.nodup_nil, nofun⟩

def Climbs (v : DownloadView) (best : IndexPtr) : Nat → List IndexPtr → Prop
  | _, [] => True
  | h, p :: rest => (∃ e, v.entry p = some e ∧ e.nHeight = h) ∧ v.index.tree.IsAncestor p best ∧ Climbs v best (h + 1) rest

theorem fillBack_spec (rooted : v.index.tree.Rooted) {best : IndexPtr} {i : Nat} {p : IndexPtr} {e : TreeEntry} {rest : List IndexPtr}
    (found : v.entry p = some e) (ancestor : v.index.tree.IsAncestor p best) (high : i ≤ e.nHeight) (above : v.Climbs best (e.nHeight + 1) rest) :
    ∃ vToFetch, v.fillBack i p rest = some vToFetch ∧ v.Climbs best (e.nHeight - i) vToFetch ∧ vToFetch.length = i + 1 + rest.length := by
  induction i generalizing p e rest with
  | zero =>
    refine ⟨p :: rest, rfl, ⟨⟨e, found, rfl⟩, ancestor, above⟩, ?_⟩
    rw [List.length_cons]
    omega
  | succ i ih =>
    obtain ⟨q, parent, up, here, height⟩ := rooted.parent_of_pos found (by omega)
    have climbs : v.Climbs best (parent.nHeight + 1) (p :: rest) := ⟨⟨e, found, height⟩, ancestor, height ▸ above⟩
    obtain ⟨vToFetch, filled, climbs', length⟩ := ih here ((isAncestor_parent found up).trans ancestor) (by omega) climbs
    refine ⟨vToFetch, ?_, ?_, ?_⟩
    · rw [fillBack, found, Option.bind_some, up, Option.bind_some]
      exact filled
    · rw [show e.nHeight - (i + 1) = parent.nHeight - i by omega]
      exact climbs'
    · rw [length, List.length_cons]
      omega

/-- What the walk keeps below a height: what it would ask for lies inside of the window, and the last common block moves up the branch. -/
structure Walked (v : DownloadView) (best start : IndexPtr) (count : Nat) (nWindowEnd : Int) (h : Nat) (w : FetchWalk) : Prop where
  few : w.vBlocks.length ≤ count
  distinct : w.vBlocks.Nodup
  fetchable : ∀ p ∈ w.vBlocks, ∃ e, v.Fetchable best p e ∧ e.nHeight < h ∧ e.nHeight ≤ nWindowEnd
  last : v.index.tree.IsAncestor w.pindexLastCommonBlock best
  start : v.index.tree.IsAncestor start w.pindexLastCommonBlock

variable {best start : IndexPtr} {count : Nat} {nWindowEnd : Int} {h : Nat} {w : FetchWalk}

section

variable (inv : v.Walked best start count nWindowEnd h w)

include inv

theorem Walked.higher {h' : Nat} (high : h ≤ h') : v.Walked best start count nWindowEnd h' w := by
  refine ⟨inv.few, inv.distinct, fun p member => ?_, inv.last, inv.start⟩
  obtain ⟨e, fetchable, low, inside⟩ := inv.fetchable p member
  exact ⟨e, fetchable, by omega, inside⟩

theorem Walked.setLast (ancestor : v.index.tree.IsAncestor p best) (above : v.index.tree.IsAncestor start p) :
    v.Walked best start count nWindowEnd h { w with pindexLastCommonBlock := p } :=
  ⟨inv.few, inv.distinct, inv.fetchable, ancestor, above⟩

theorem Walked.setWaiting (waitingfor nodeStaller : NodeId) :
    v.Walked best start count nWindowEnd h { w with waitingfor, nodeStaller } := ⟨inv.few, inv.distinct, inv.fetchable, inv.last, inv.start⟩

theorem Walked.push (room : w.vBlocks.length < count) (fetchable : v.Fetchable best p e) (level : e.nHeight = h)
    (inside : e.nHeight ≤ nWindowEnd) :
    v.Walked best start count nWindowEnd (h + 1) { w with vBlocks := w.vBlocks ++ [p] } := by
  have other : p ∉ w.vBlocks := by
    intro member
    obtain ⟨e', fetchable', low, _⟩ := inv.fetchable p member
    have same := fetchable.found.symm.trans fetchable'.found
    obtain rfl := Option.some.inj same
    omega
  refine ⟨?_, ?_, fun q member => ?_, inv.last, inv.start⟩
  · show (w.vBlocks ++ [p]).length ≤ count
    rw [List.length_append, List.length_singleton]
    omega
  · apply List.nodup_append.mpr
    refine ⟨inv.distinct, List.nodup_singleton p, fun q member q' last => ?_⟩
    obtain rfl := List.mem_singleton.mp last
    intro same
    exact other (same ▸ member)
  · rcases List.mem_append.mp member with earlier | last
    · obtain ⟨e', fetchable', low, inside'⟩ := inv.fetchable q earlier
      exact ⟨e', fetchable', by omega, inside'⟩
    · obtain rfl := List.mem_singleton.mp last
      exact ⟨e, fetchable, by omega, inside⟩

end

theorem scan_spec (rooted : v.index.tree.Rooted) {eStart : TreeEntry}
    (foundBest : v.entry best = some eBest) (foundStart : v.entry start = some eStart)
    (below : v.index.tree.IsAncestor start best) (nodeid : NodeId) {vToFetch : List IndexPtr}
    (climbs : v.Climbs best h vToFetch) (low : eStart.nHeight ≤ h)
    (inv : v.Walked best start count nWindowEnd h w) (room : w.vBlocks.length < count) :
    ∃ w' returned, v.scan nodeid count nWindowEnd vToFetch w = some (w', returned) ∧
      v.Walked best start count nWindowEnd (h + vToFetch.length) w' ∧ (returned = false → w'.vBlocks.length < count) := by
  induction vToFetch generalizing h w with
  | nil => exact ⟨w, false, rfl, inv, fun _ => room⟩
  | cons p vToFetch ih =>
    obtain ⟨⟨e, found, level⟩, ancestor, rest⟩ := climbs
    have size : h + (p :: vToFetch).length = h + 1 + vToFetch.length := by
      rw [List.length_cons]
      omega
    have next := fun {w : FetchWalk} (inv : v.Walked best start count nWindowEnd (h + 1) w) => ih rest (by omega) inv
    have up := inv.higher (Nat.le_succ h)
    rw [scan, found, Option.bind_some, size]
    by_cases invalid : (!e.isValid BLOCK_VALID_TREE) = true
    · rw [if_pos invalid]
      exact ⟨w, true, rfl, inv.higher (by omega), nofun⟩
    · rw [if_neg invalid]
      by_cases have_ : e.haveData = true
      · rw [if_pos have_]
        have above : v.index.tree.IsAncestor start p := rooted.isAncestor_of_le foundBest foundStart found below ancestor (by omega)
        split
        · exact next (up.setLast ancestor above) room
        · exact next up room
      · rw [if_neg have_]
        cases free : v.inFlight p with
        | none =>
          dsimp only
          by_cases outside : (e.nHeight : Int) > nWindowEnd
          · rw [if_pos outside]
            refine ⟨_, true, rfl, ?_, nofun⟩
            split
            · exact (inv.setWaiting w.waitingfor w.waitingfor).higher (by omega)
            · exact inv.higher (by omega)
          · rw [if_neg outside]
            have pushed := inv.push room ⟨found, eq_false_of_ne_true have_, free, ancestor⟩ level (by omega)
            by_cases full : (w.vBlocks ++ [p]).length = count
            · rw [if_pos full]
              exact ⟨_, true, rfl, pushed.higher (by omega), nofun⟩
            · rw [if_neg full]
              have few := pushed.few
              exact next pushed (lt_of_le_of_ne few full)
        | some queued =>
          dsimp only
          split
          · exact next (up.setWaiting queued.1 w.nodeStaller) room
          · exact next up room

theorem batchSize_bounds {nMaxHeight : Int} {nHeight : Nat} (lower : (nHeight : Int) < nMaxHeight) (count size : Nat) :
    1 ≤ batchSize count nMaxHeight nHeight size ∧ nHeight + batchSize count nMaxHeight nHeight size ≤ nMaxHeight := by
  unfold batchSize
  omega

theorem fetchLoop_spec (grown : v.index.tree.Grown built) {eStart : TreeEntry}
    (foundBest : v.entry best = some eBest) (foundStart : v.entry start = some eStart)
    (below : v.index.tree.IsAncestor start best) (nodeid : NodeId) {nMaxHeight : Int}
    (max : nMaxHeight ≤ eBest.nHeight) {bound : Nat} {p : IndexPtr} {e : TreeEntry}
    (found : v.entry p = some e) (enough : nMaxHeight ≤ e.nHeight + bound)
    (low : eStart.nHeight ≤ e.nHeight) (inv : v.Walked best start count nWindowEnd (e.nHeight + 1) w)
    (room : w.vBlocks.length < count) :
    ∃ w' h', v.fetchLoop nodeid count best nWindowEnd nMaxHeight bound p w = some w' ∧ v.Walked best start count nWindowEnd h' w' := by
  have rooted := grown.skips.rooted
  induction bound generalizing p e w with
  | zero =>
    unfold fetchLoop
    rw [found, Option.bind_some, if_neg (by omega)]
    exact ⟨w, _, rfl, inv⟩
  | succ n ih =>
    unfold fetchLoop
    rw [found, Option.bind_some]
    by_cases lower : (e.nHeight : Int) < nMaxHeight
    · rw [if_pos lower]
      obtain ⟨positive, inside⟩ := batchSize_bounds lower count w.vBlocks.length
      generalize batchSize count nMaxHeight e.nHeight w.vBlocks.length = nToFetch at positive inside
      dsimp only
      obtain ⟨next, eNext, looked, ancestor, foundNext, level⟩ :=
        grown.ancestor_at foundBest (show e.nHeight + nToFetch.toNat ≤ eBest.nHeight by omega)
      have target : ((e.nHeight + nToFetch.toNat : Nat) : Int) = e.nHeight + nToFetch := by omega
      rw [target] at looked
      obtain ⟨vToFetch, filled, climbs, length⟩ := @fillBack_spec v rooted best (nToFetch.toNat - 1) next eNext [] foundNext ancestor (by omega) trivial
      rw [show eNext.nHeight - (nToFetch.toNat - 1) = e.nHeight + 1 by omega] at climbs
      rw [List.length_nil] at length
      obtain ⟨w', returned, scanned, inv', room'⟩ := scan_spec rooted foundBest foundStart below nodeid climbs (by omega) inv room
      rw [looked, Option.join_some, Option.bind_some, filled, Option.bind_some, scanned, Option.bind_some]
      dsimp only
      cases returned with
      | true => exact ⟨w', _, rfl, inv'⟩
      | false =>
        rw [if_neg Bool.false_ne_true]
        exact ih foundNext (by omega) (by omega) (inv'.higher (by omega)) (room' rfl)
    · rw [if_neg lower]
      exact ⟨w, _, rfl, inv⟩

/-- What is asked of a peer whose best block is interesting: blocks on its branch, inside the window above the last block in common. -/
structure Fetched (v : DownloadView) (guess best : IndexPtr) (r : DownloadResult) (start last : IndexPtr) (eStart : TreeEntry) : Prop where
  common : v.index.tree.LastCommon start guess best
  found : v.entry start = some eStart
  moved : r.state.pindexLastCommonBlock = some last
  above : v.index.tree.IsAncestor start last
  ancestor : v.index.tree.IsAncestor last best
  window : ∀ p ∈ r.vBlocks, ∃ e, v.Fetchable best p e ∧ e.nHeight ≤ eStart.nHeight + BLOCK_DOWNLOAD_WINDOW

def guess (v : DownloadView) (state : PeerBlocks) (eBest : TreeEntry) : Option IndexPtr :=
  state.pindexLastCommonBlock.or (v.chainActive.at_ (min eBest.nHeight v.chainActive.height))

theorem guess_known (valid : v.Valid built) (known : v.Known state) (eBest : TreeEntry) :
    ∃ p e, v.guess state eBest = some p ∧ v.entry p = some e := by
  unfold guess
  cases before : state.pindexLastCommonBlock with
  | some p =>
    obtain ⟨e, found⟩ := known.last p before
    exact ⟨p, e, rfl, found⟩
  | none =>
    obtain ⟨tip, eTip, _, foundTip, represents⟩ := valid.tip
    have height := IndexChain.height_eq represents foundTip
    have rooted := valid.grown.skips.rooted
    obtain ⟨p, e, walked, found, _⟩ := rooted.walkBack_spec foundTip (show (eTip.nHeight - min (eBest.nHeight : Int) eTip.nHeight).toNat ≤ _ by omega)
    rw [Option.none_or, height, IndexChain.at_eq represents foundTip (by omega), walked]
    exact ⟨p, e, rfl, found⟩

theorem fetchInteresting_spec (valid : v.Valid built) (known : v.Known state)
    (found : v.entry best = some eBest) (positive : 0 < count) (nodeid nodeStaller : NodeId) :
    ∃ r guess start last eStart, v.fetchInteresting nodeid count state best [] nodeStaller = some r ∧ v.guess state eBest = some guess ∧
      r.state.pindexBestKnownBlock = state.pindexBestKnownBlock ∧ r.vBlocks.length ≤ count ∧ r.vBlocks.Nodup ∧
      v.Fetched guess best r start last eStart := by
  obtain ⟨guess, eGuess, guessed, foundGuess⟩ := guess_known valid known eBest
  obtain ⟨start, common, isCommon⟩ := lastCommonAncestor_spec valid.grown foundGuess found
  have rooted := valid.grown.skips.rooted
  obtain ⟨eStart, inTree, _⟩ := rooted.isAncestor_height found isCommon.right
  have foundStart : v.entry start = some eStart := inTree
  have guessed' : state.pindexLastCommonBlock.or (v.chainActive.at_ (min eBest.nHeight v.chainActive.height)) = some guess := guessed
  unfold fetchInteresting
  rw [found, Option.bind_some, guessed', Option.bind_some, common, Option.join_some, Option.bind_some]
  by_cases all : start = best
  · rw [if_pos all]
    exact ⟨_, guess, start, start, eStart, rfl, guessed, rfl, Nat.zero_le _, List.nodup_nil, isCommon, foundStart, rfl, isAncestor_refl _ start,
      isCommon.right, nofun⟩
  · rw [if_neg all]
    have start_ : v.Walked best start count (eStart.nHeight + BLOCK_DOWNLOAD_WINDOW) (eStart.nHeight + 1)
        { vBlocks := [], pindexLastCommonBlock := start, waitingfor := -1, nodeStaller } :=
      ⟨Nat.zero_le _, List.nodup_nil, nofun, isCommon.right, isAncestor_refl _ start⟩
    obtain ⟨w, h, looped, inv⟩ := fetchLoop_spec valid.grown found foundStart isCommon.right nodeid
      (show min (eBest.nHeight : Int) (eStart.nHeight + BLOCK_DOWNLOAD_WINDOW + 1) ≤ eBest.nHeight by omega) foundStart
      (show _ ≤ (eStart.nHeight : Int) + eBest.nHeight by omega) (Nat.le_refl _) start_ positive
    unfold fetchFrom
    rw [foundStart, Option.bind_some, found, Option.bind_some]
    dsimp only
    rw [looped, Option.map_some]
    refine ⟨_, guess, start, w.pindexLastCommonBlock, eStart, rfl, guessed, rfl, inv.few, inv.distinct, isCommon, foundStart, rfl, inv.start, inv.last, ?_⟩
    intro p member
    obtain ⟨e, fetchable, _, inside⟩ := inv.fetchable p member
    exact ⟨e, fetchable, inside⟩

/-- Every block that a peer is asked for is useful. The last common block is put right where the peer is interesting, and is left alone elsewhere. -/
theorem findNextBlocksToDownload_useful (valid : v.Valid built) {state : PeerBlocks} (known : v.Known state) (positive : 0 < count)
    (nodeid nodeStaller : NodeId) (nStartingHeight : Int) :
    ∃ state' r, v.processBlockAvailability state = some state' ∧
      v.findNextBlocksToDownload nodeid nStartingHeight count state [] nodeStaller = some r ∧
      r.state.pindexBestKnownBlock = state'.pindexBestKnownBlock ∧ r.vBlocks.length ≤ count ∧ r.vBlocks.Nodup ∧
      ((∃ header, v.initialHeader state' = some header ∧ r.state.pindexLastCommonBlock = state.pindexLastCommonBlock ∧
          ∀ p ∈ r.vBlocks, ∃ e, v.Fetchable header p e) ∨
        (v.initialHeader state' = none ∧ ¬v.Interesting state' ∧ r.vBlocks = [] ∧ r.state.pindexLastCommonBlock = state.pindexLastCommonBlock) ∨
        (v.initialHeader state' = none ∧ v.Interesting state' ∧ ∃ guess best eBest start last eStart, state'.pindexBestKnownBlock = some best ∧
          v.entry best = some eBest ∧ v.guess state eBest = some guess ∧ v.Fetched guess best r start last eStart)) := by
  obtain ⟨state', processed, known', sameLast⟩ := processBlockAvailability_spec known
  unfold findNextBlocksToDownload
  rw [if_neg (Nat.pos_iff_ne_zero.mp positive), processed, Option.bind_some]
  refine ⟨state', ?_⟩
  cases special : v.initialHeader state' with
  | some header =>
    have isHeader : v.pindexBestHeader = some header := by
      unfold initialHeader at special
      split at special
      · exact special
      · exact nomatch special
    obtain ⟨e, found⟩ := valid.header header isHeader
    obtain ⟨blocks, walked, inv⟩ := initialBlocks_spec valid found nStartingHeight positive
    dsimp only
    rw [walked, Option.map_some, List.nil_append]
    refine ⟨_, rfl, rfl, rfl, inv.few, inv.distinct, Or.inl ⟨header, rfl, sameLast, fun p member => ?_⟩⟩
    obtain ⟨e', fetchable, _⟩ := inv.fetchable p member
    exact ⟨e', fetchable⟩
  | none =>
    dsimp only
    unfold findAtPeer
    cases isBest : state'.pindexBestKnownBlock with
    | none =>
      refine ⟨_, rfl, rfl, isBest, Nat.zero_le _, List.nodup_nil, Or.inr (Or.inl ⟨rfl, ?_, rfl, sameLast⟩)⟩
      intro interesting
      obtain ⟨best, _, _, _, isBest', _⟩ := interesting
      exact nomatch isBest.symm.trans isBest'
    | some best =>
      obtain ⟨eBest, found⟩ := known'.best best isBest
      obtain ⟨tip, eTip, isTip, foundTip, _⟩ := valid.tip
      dsimp only
      rw [found, Option.bind_some, isTip, Option.bind_some, foundTip, Option.bind_some]
      by_cases less : eBest.nChainWork < eTip.nChainWork
      · rw [if_pos less]
        refine ⟨_, rfl, rfl, isBest, Nat.zero_le _, List.nodup_nil, Or.inr (Or.inl ⟨rfl, ?_, rfl, sameLast⟩)⟩
        intro interesting
        obtain ⟨best', eBest', tip', eTip', isBest', found', isTip', foundTip', most⟩ := interesting
        obtain rfl := Option.some.inj (isBest.symm.trans isBest')
        obtain rfl := Option.some.inj (isTip.symm.trans isTip')
        obtain rfl := Option.some.inj (found.symm.trans found')
        obtain rfl := Option.some.inj (foundTip.symm.trans foundTip')
        omega
      · rw [if_neg less]
        obtain ⟨r, guess, start, last, eStart, fetched, guessed, same, few, distinct, spec⟩ :=
          fetchInteresting_spec valid known' found positive nodeid nodeStaller
        have guessed' : v.guess state eBest = some guess := by
          rw [← guessed, DownloadView.guess, DownloadView.guess, sameLast]
        refine ⟨r, rfl, fetched, same.trans isBest, few, distinct,
          Or.inr (Or.inr ⟨rfl, ?_, guess, best, eBest, start, last, eStart, rfl, found, guessed', spec⟩)⟩
        exact ⟨best, eBest, tip, eTip, isBest, found, isTip, foundTip, by omega⟩

def forkEntry (pprev : Option IndexPtr) (nHeight nChainWork : Nat) (nStatus : BitVec 32) : TreeEntry :=
  { pprev, pskip := pprev.map fun _ => 0, nHeight, nChainWork, nTx := if nStatus = 10 then 1 else 0,
    nChainTx := if nStatus = 10 then nHeight + 1 else 0, nStatus, nSequenceId := 0 }

def forkTree : BlockTree where
  mapBlockIndex := (((((∅ : StdMap IndexPtr TreeEntry).insert 0 (forkEntry none 0 1 10)).insert 1 (forkEntry (some 0) 1 5 10)).insert 2
    (forkEntry (some 0) 1 5 2)).insert 3 (forkEntry (some 0) 1 9 10)).insert 4 (forkEntry (some 1) 2 20 2)
  genesis := 0
  tip := 3
  setBlockIndexCandidates := ∅

theorem forkTree_entry (p : IndexPtr) : forkTree.entry p =
    if p = 4 then some (forkEntry (some 1) 2 20 2) else if p = 3 then some (forkEntry (some 0) 1 9 10)
    else if p = 2 then some (forkEntry (some 0) 1 5 2) else if p = 1 then some (forkEntry (some 0) 1 5 10)
    else if p = 0 then some (forkEntry none 0 1 10) else none := by
  unfold BlockTree.entry forkTree
  simp only [StdMap.lookup_insert_ite, AList.lookup_empty]

theorem forkTree_known (p : IndexPtr) : (forkTree.entry p).isSome ↔ p < 5 := by
  rw [forkTree_entry]
  match p with
  | 0 | 1 | 2 | 3 | 4 => simp
  | n + 5 => simp

def forkMap : BlockMap where
  tree := forkTree
  phashBlock := fun p => BitVec.ofNat 256 p
  mapBlockIndex := (((((∅ : StdMap uint256 IndexPtr).insert 0 0).insert 1 1).insert 2 2).insert 3 3).insert 4 4
  keyed := by
    intro hash p
    simp only [StdMap.lookup_insert_ite, AList.lookup_empty]
    rw [forkTree_known]
    constructor
    · intro held
      split_ifs at held with four three two one zero
      all_goals obtain rfl := Option.some.inj held
      · exact ⟨by decide, four.symm⟩
      · exact ⟨by decide, three.symm⟩
      · exact ⟨by decide, two.symm⟩
      · exact ⟨by decide, one.symm⟩
      · exact ⟨by decide, zero.symm⟩
    · intro held
      obtain ⟨inside, rfl⟩ := held
      match p, inside with
      | 0, _ | 1, _ | 2, _ | 3, _ | 4, _ => rfl

def forkView : DownloadView where
  index := forkMap
  chainActive := { vChain := [some 0, some 3] }
  pindexBestHeader := some 4
  mapBlocksInFlight := ∅
  isInitialBlockDownload := false

theorem forkTree_grown : forkTree.Grown (Finset.range 5) := by
  have inside : ∀ p e, forkTree.entry p = some e → p < 5 := fun p e found => (forkTree_known p).mp (by rw [found]; rfl)
  refine ⟨⟨fun p e found => ?_, fun p member => ?_, fun p member e q found up => ?_, fun p member e q found up => ?_⟩, fun p e found => ?_,
    fun p e found root => ?_⟩
  · have small := inside p e found
    match p, small with
    | 0, _ =>
      obtain rfl := Option.some.inj found
      rfl
    | 1, _ | 2, _ | 3, _ | 4, _ =>
      obtain rfl := Option.some.inj found
      exact ⟨_, rfl, rfl⟩
  · exact (forkTree_known p).mpr (Finset.mem_range.mp member)
  · have small := inside p e found
    match p, small with
    | 0, _ =>
      obtain rfl := Option.some.inj found
      exact nomatch up
    | 1, _ | 2, _ | 3, _ | 4, _ =>
      obtain rfl := Option.some.inj found
      obtain rfl := Option.some.inj up
      decide
  · have small := inside p e found
    match p, small with
    | 0, _ =>
      obtain rfl := Option.some.inj found
      exact nomatch up
    | 1, _ | 2, _ | 3, _ | 4, _ =>
      obtain rfl := Option.some.inj found
      exact ⟨_, rfl, rfl⟩
  · exact Finset.mem_range.mpr (inside p e found)
  · have small := inside p e found
    match p, small with
    | 0, _ => rfl
    | 1, _ | 2, _ | 3, _ | 4, _ =>
      obtain rfl := Option.some.inj found
      exact nomatch root

theorem forkView_valid : forkView.Valid (Finset.range 5) where
  grown := forkTree_grown
  chain := by
    refine ⟨3, forkEntry (some 0) 1 9 10, rfl, rfl, fun k low => ?_⟩
    match k, low with
    | 0, _ | 1, _ => rfl
  header := fun p same => ⟨forkEntry (some 1) 2 20 2, by rw [← Option.some.inj same]; rfl⟩

theorem forkView_known {best : Option IndexPtr} (bestInside : ∀ p, best = some p → p < 5)
    (lastInside : ∀ p, last = some p → p < 5) :
    forkView.Known { pindexBestKnownBlock := best, pindexLastCommonBlock := last } :=
  ⟨fun p same => Option.isSome_iff_exists.mp ((forkTree_known p).mpr (bestInside p same)),
    fun p same => Option.isSome_iff_exists.mp ((forkTree_known p).mpr (lastInside p same))⟩

theorem fork_asked : ∃ state' r, forkView.processBlockAvailability { pindexBestKnownBlock := some 4, pindexLastCommonBlock := none } = some state' ∧
    forkView.findNextBlocksToDownload 7 100 16 { pindexBestKnownBlock := some 4, pindexLastCommonBlock := none } [] (-1) = some r ∧
    r.state.pindexBestKnownBlock = state'.pindexBestKnownBlock ∧ r.vBlocks.length ≤ 16 ∧ r.vBlocks.Nodup ∧
    ((∃ header, forkView.initialHeader state' = some header ∧ r.state.pindexLastCommonBlock = none ∧
        ∀ p ∈ r.vBlocks, ∃ e, forkView.Fetchable header p e) ∨
      (forkView.initialHeader state' = none ∧ ¬forkView.Interesting state' ∧ r.vBlocks = [] ∧ r.state.pindexLastCommonBlock = none) ∨
      (forkView.initialHeader state' = none ∧ forkView.Interesting state' ∧ ∃ guess best eBest start last eStart,
        state'.pindexBestKnownBlock = some best ∧ forkView.entry best = some eBest ∧
        forkView.guess { pindexBestKnownBlock := some 4, pindexLastCommonBlock := none } eBest = some guess ∧
        forkView.Fetched guess best r start last eStart)) := by
  apply findNextBlocksToDownload_useful forkView_valid _ (by decide)
  apply forkView_known
  · intro p same
    obtain rfl := Option.some.inj same
    decide
  · nofun

/-- The last common block, which we have, stays on the peer's old branch while the new one has less work than the tip. -/
theorem stale_last_common : forkView.Valid (Finset.range 5) ∧ forkView.Known { pindexBestKnownBlock := some 2, pindexLastCommonBlock := some 1 } ∧
    forkView.findNextBlocksToDownload 7 100 16 { pindexBestKnownBlock := some 2, pindexLastCommonBlock := some 1 } [] (-1) =
      some { state := { pindexBestKnownBlock := some 2, pindexLastCommonBlock := some 1 }, vBlocks := [], nodeStaller := -1 } ∧
    ¬forkView.index.tree.IsAncestor 1 2 := by
  refine ⟨forkView_valid, ?_, rfl, ?_⟩
  · apply forkView_known
    · intro p same
      obtain rfl := Option.some.inj same
      decide
    · intro p same
      obtain rfl := Option.some.inj same
      decide
  · intro ancestor
    have foundNew : forkTree.entry 2 = some (forkEntry (some 0) 1 5 2) := rfl
    have foundOld : forkTree.entry 1 = some (forkEntry (some 0) 1 5 10) := rfl
    have same := forkTree_grown.skips.rooted.isAncestor_same foundNew foundOld ancestor rfl
    exact absurd same (by decide)

end DownloadView

end SchillingCoin
