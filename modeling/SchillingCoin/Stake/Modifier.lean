import Mathlib.Data.List.Sort
import SchillingCoin.Primitives.Wire
import SchillingCoin.Stake.Kernel

/-!
The generation of the old stake modifiers, after `legacy/stakemodifier.cpp`. A pointer to a block is the list of the block and its
ancestors, and the empty list is the null pointer. `Hash` is a parameter.
-/

namespace SchillingCoin

open Codec Wire

def MODIFIER_INTERVAL : Nat := 60
def MODIFIER_INTERVAL_RATIO : Nat := 3

def Network.height_start_StakeModifierNewSelection : Network → Nat
  | .main => 1040000
  | .testnet => 51197
  | .regtest => 0

structure StakeIndex extends CBlockIndex where
  /-- The flag `BLOCK_PROOF_OF_STAKE`. -/
  isProofOfStake : Bool := false
  deriving DecidableEq, Repr

namespace StakeIndex

def getBlockTime (pindex : StakeIndex) : Int := pindex.nTime

/-- The lowest bit of `GetCheapHash`. -/
def getStakeEntropyBit (pindex : StakeIndex) : BitVec 32 := (pindex.hash.setWidth 64 &&& 1).setWidth 32

end StakeIndex

structure ModifierNode where
  network : Network
  mapBlockIndex : StdMap uint256 StakeIndex
  hash256 : List UInt8 → uint256
  /-- The address of the text that the first modifier is cast from. -/
  stakemodifier : BitVec 64

namespace ModifierNode

variable (node : ModifierNode)

/-- Get selection interval section (in seconds); the assertion holds in every round. -/
def getStakeModifierSelectionIntervalSection (nSection : Nat) : Int :=
  ((MODIFIER_INTERVAL * 63 / (63 + (63 - nSection) * ( MODIFIER_INTERVAL_RATIO - 1)) : Nat) : Int)

def hashSelection (fModifierV2 : Bool) (nStakeModifierPrev : BitVec 64) (pindex : StakeIndex) : uint256 :=
  let hashProof : uint256 := if fModifierV2 then pindex.hash else if pindex.isProofOfStake then 0 else pindex.hash
  let hashSelection := node.hash256 (uint256Bytes hashProof ++ leBytes 8 nStakeModifierPrev.toNat)
  if pindex.isProofOfStake then hashSelection >>> 32 else hashSelection

/-- `hashBest` and `pindexSelected` once something is selected. -/
abbrev Best := Option (uint256 × StakeIndex)

def better (best : Best) (hashSelection : uint256) (pindex : StakeIndex) : Best :=
  match best with
  | some b => if hashSelection < b.1 then some (hashSelection, pindex) else some b
  | none => some (hashSelection, pindex)

/-- The scan over the candidates. `none` is a candidate without an index entry; `fModifierV2` is open before the first candidate. -/
def selectLoop (mapSelectedBlocks : StdMap uint256 StakeIndex) (nSelectionIntervalStop : Int) (nStakeModifierPrev : BitVec 64) :
    (fModifierV2 : Option Bool) → Best → List (Int × uint256) → Option Best
  | _, best, [] => some best
  | fModifierV2, best, item :: vSortedByTimestamp =>
    (node.mapBlockIndex.lookup item.2).bind fun pindex =>
      if best.isSome ∧ pindex.getBlockTime > nSelectionIntervalStop then some best
      else
        let v2 := fModifierV2.getD (decide (pindex.nHeight ≥ node.network.height_start_StakeModifierNewSelection))
        if (mapSelectedBlocks.lookup pindex.hash).isSome then
          selectLoop mapSelectedBlocks nSelectionIntervalStop nStakeModifierPrev (some v2) best vSortedByTimestamp
        else
          selectLoop mapSelectedBlocks nSelectionIntervalStop nStakeModifierPrev (some v2)
            (better best (node.hashSelection v2 nStakeModifierPrev pindex) pindex) vSortedByTimestamp

/-- `none` is the result false. -/
def selectBlockFromCandidates (vSortedByTimestamp : List (Int × uint256)) (mapSelectedBlocks : StdMap uint256 StakeIndex)
    (nSelectionIntervalStop : Int) (nStakeModifierPrev : BitVec 64) : Option StakeIndex :=
  ((node.selectLoop mapSelectedBlocks nSelectionIntervalStop nStakeModifierPrev none none vSortedByTimestamp).join).map Prod.snd

structure Selection where
  nSelectionIntervalStop : Int
  mapSelectedBlocks : StdMap uint256 StakeIndex := ∅
  nStakeModifierNew : BitVec 64 := 0

def afterRound (nRound : Nat) (s : Selection) (pindex : StakeIndex) : Selection where
  nSelectionIntervalStop := s.nSelectionIntervalStop + getStakeModifierSelectionIntervalSection nRound
  mapSelectedBlocks := s.mapSelectedBlocks.insertNew pindex.hash pindex
  nStakeModifierNew := s.nStakeModifierNew ||| pindex.getStakeEntropyBit.setWidth 64 <<< nRound

def rounds (vSortedByTimestamp : List (Int × uint256)) (nStakeModifier : BitVec 64) : (left nRound : Nat) → Selection → Option Selection
  | 0, _, s => some s
  | left + 1, nRound, s =>
    (node.selectBlockFromCandidates vSortedByTimestamp s.mapSelectedBlocks
      (s.nSelectionIntervalStop + getStakeModifierSelectionIntervalSection nRound) nStakeModifier).bind fun pindex =>
        rounds vSortedByTimestamp nStakeModifier left (nRound + 1) (afterRound nRound s pindex)

/-- The walk to the block that the current modifier was generated at, or to the first block. -/
def lastModifier : StakeIndex → List StakeIndex → StakeIndex
  | p, [] => p
  | p, pprev :: ancestors => if p.generatedStakeModifier then p else lastModifier pprev ancestors

def selectionIntervalStart (pindexPrev : StakeIndex) : Int :=
  pindexPrev.getBlockTime / MODIFIER_INTERVAL * MODIFIER_INTERVAL - OLD_MODIFIER_INTERVAL

def candidates (pindexPrev : StakeIndex) (ancestors : List StakeIndex) : List StakeIndex :=
  (pindexPrev :: ancestors).takeWhile fun pindex => pindex.getBlockTime ≥ selectionIntervalStart pindexPrev

def pairLe (a b : Int × uint256) : Bool := a.1 < b.1 || (a.1 = b.1 && a.2 ≤ b.2)

def sortedByTimestamp (blocks : List StakeIndex) : List (Int × uint256) :=
  (blocks.map fun pindex => (pindex.getBlockTime, pindex.hash)).reverse.mergeSort pairLe

/-- The modifier and whether it was generated. `none` is the result false. -/
def computeNextStakeModifier : List StakeIndex → Option (BitVec 64 × Bool)
  | [] => some (0, true)
  | pindexPrev :: ancestors =>
    if pindexPrev.nHeight = 0 then some (node.stakemodifier, true)
    else
      let p := lastModifier pindexPrev ancestors
      if !p.generatedStakeModifier then none
      else
        let nStakeModifier := p.getStakeModifierV1 node.network
        if p.getBlockTime / MODIFIER_INTERVAL ≥ pindexPrev.getBlockTime / MODIFIER_INTERVAL then some (nStakeModifier, false)
        else
          let vSortedByTimestamp := sortedByTimestamp (candidates pindexPrev ancestors)
          (node.rounds vSortedByTimestamp nStakeModifier (min 64 vSortedByTimestamp.length) 0
            { nSelectionIntervalStop := selectionIntervalStart pindexPrev }).map fun s => (s.nStakeModifierNew, true)

variable {node : ModifierNode} {mapSelectedBlocks : StdMap uint256 StakeIndex} {nSelectionIntervalStop : Int} {nStakeModifierPrev : BitVec 64}

def Indexed (node : ModifierNode) (items : List (Int × uint256)) : Prop :=
  ∀ item ∈ items, ∃ q, item = (q.getBlockTime, q.hash) ∧ node.mapBlockIndex.lookup q.hash = some q

theorem Indexed.tail (indexed : node.Indexed (item :: items)) : node.Indexed items :=
  fun other member => indexed other (List.mem_cons_of_mem _ member)

def fModifierV2 (node : ModifierNode) (items : List (Int × uint256)) : Bool :=
  ((items.head?.bind fun item => node.mapBlockIndex.lookup item.2).map fun pindex =>
    decide (pindex.nHeight ≥ node.network.height_start_StakeModifierNewSelection)).getD false

theorem selectLoop_some (v2 : Bool) {items : List (Int × uint256)} (indexed : node.Indexed items) (b : uint256 × StakeIndex) :
    ∃ b', node.selectLoop mapSelectedBlocks nSelectionIntervalStop nStakeModifierPrev (some v2) (some b) items = some (some b') ∧ b'.1 ≤ b.1 ∧
      (b' = b ∨ (b'.2.getBlockTime, b'.2.hash) ∈ items ∧ node.mapBlockIndex.lookup b'.2.hash = some b'.2 ∧
        mapSelectedBlocks.lookup b'.2.hash = none ∧ b'.2.getBlockTime ≤ nSelectionIntervalStop ∧ b'.1 = node.hashSelection v2 nStakeModifierPrev b'.2) ∧
      ∀ q, (q.getBlockTime, q.hash) ∈ items.takeWhile (fun item => item.1 ≤ nSelectionIntervalStop) →
        node.mapBlockIndex.lookup q.hash = some q → mapSelectedBlocks.lookup q.hash = none →
        b'.1 ≤ node.hashSelection v2 nStakeModifierPrev q := by
  induction items generalizing b with
  | nil => exact ⟨b, rfl, BitVec.le_refl _, Or.inl rfl, nofun⟩
  | cons item items ih =>
    obtain ⟨q, rfl, entry⟩ := indexed item List.mem_cons_self
    rw [selectLoop, entry, Option.bind_some]
    by_cases late : q.getBlockTime > nSelectionIntervalStop
    · rw [if_pos ⟨rfl, late⟩, List.takeWhile_cons_of_neg (by simpa using late)]
      exact ⟨b, rfl, BitVec.le_refl _, Or.inl rfl, nofun⟩
    · have inTime : q.getBlockTime ≤ nSelectionIntervalStop := not_lt.mp late
      rw [if_neg (fun both => late both.2), List.takeWhile_cons_of_pos (by simpa using inTime)]
      simp only [Option.getD_some]
      by_cases selected : (mapSelectedBlocks.lookup q.hash).isSome = true
      · rw [if_pos selected]
        obtain ⟨b', scanned, lower, from_, best⟩ := ih indexed.tail b
        refine ⟨b', scanned, lower, from_.imp_right fun later => ⟨List.mem_cons_of_mem _ later.1, later.2⟩, fun q' member entry' fresh => ?_⟩
        rcases List.mem_cons.mp member with here | later
        · rw [(Prod.mk.inj here).2] at fresh
          rw [fresh] at selected
          exact nomatch selected
        · exact best q' later entry' fresh
      · rw [if_neg selected]
        have fresh : mapSelectedBlocks.lookup q.hash = none := by simpa using selected
        have same : ∀ q', (q'.getBlockTime, q'.hash) = (q.getBlockTime, q.hash) → node.mapBlockIndex.lookup q'.hash = some q' → q' = q := by
          intro q' here entry'
          rw [(Prod.mk.inj here).2, entry] at entry'
          exact (Option.some.inj entry').symm
        unfold better
        by_cases less : node.hashSelection v2 nStakeModifierPrev q < b.1
        · simp only [less, if_true]
          obtain ⟨b', scanned, lower, from_, best⟩ := ih indexed.tail (node.hashSelection v2 nStakeModifierPrev q, q)
          refine ⟨b', scanned, BitVec.le_trans lower (BitVec.le_of_lt less), Or.inr ?_, fun q' member entry' fresh' => ?_⟩
          · rcases from_ with this | later
            · rw [this]
              exact ⟨List.mem_cons_self, entry, fresh, inTime, rfl⟩
            · exact ⟨List.mem_cons_of_mem _ later.1, later.2⟩
          · rcases List.mem_cons.mp member with here | later
            · rw [same q' here entry']
              exact lower
            · exact best q' later entry' fresh'
        · simp only [less, if_false]
          obtain ⟨b', scanned, lower, from_, best⟩ := ih indexed.tail b
          refine ⟨b', scanned, lower, from_.imp_right fun later => ⟨List.mem_cons_of_mem _ later.1, later.2⟩, fun q' member entry' fresh' => ?_⟩
          rcases List.mem_cons.mp member with here | later
          · rw [same q' here entry']
            exact BitVec.le_trans lower (BitVec.not_lt.mp less)
          · exact best q' later entry' fresh'

theorem selectLoop_none (v2 : Bool) {items : List (Int × uint256)} (indexed : node.Indexed items)
    (left : ∃ item ∈ items, mapSelectedBlocks.lookup item.2 = none) :
    ∃ before q after, items = before ++ (q.getBlockTime, q.hash) :: after ∧ (∀ item ∈ before, mapSelectedBlocks.lookup item.2 ≠ none) ∧
      mapSelectedBlocks.lookup q.hash = none ∧ node.mapBlockIndex.lookup q.hash = some q ∧
      node.selectLoop mapSelectedBlocks nSelectionIntervalStop nStakeModifierPrev (some v2) none items =
        node.selectLoop mapSelectedBlocks nSelectionIntervalStop nStakeModifierPrev (some v2)
          (some (node.hashSelection v2 nStakeModifierPrev q, q)) after := by
  induction items with
  | nil =>
    obtain ⟨item, member, _⟩ := left
    exact absurd member List.not_mem_nil
  | cons item items ih =>
    obtain ⟨q, rfl, entry⟩ := indexed item List.mem_cons_self
    rw [selectLoop, entry, Option.bind_some, if_neg (fun both => Bool.false_ne_true both.1)]
    simp only [Option.getD_some]
    by_cases selected : (mapSelectedBlocks.lookup q.hash).isSome = true
    · rw [if_pos selected]
      have later : ∃ item ∈ items, mapSelectedBlocks.lookup item.2 = none := by
        obtain ⟨item, member, fresh⟩ := left
        rcases List.mem_cons.mp member with rfl | later
        · rw [fresh] at selected
          exact nomatch selected
        · exact ⟨item, later, fresh⟩
      obtain ⟨before, q', after, parts, taken, fresh, entry', scanned⟩ := ih indexed.tail later
      refine ⟨(q.getBlockTime, q.hash) :: before, q', after, by rw [parts, List.cons_append], fun item member => ?_, fresh, entry', scanned⟩
      rcases List.mem_cons.mp member with rfl | earlier
      · exact Option.isSome_iff_ne_none.mp selected
      · exact taken item earlier
    · rw [if_neg selected]
      exact ⟨[], q, items, rfl, nofun, by simpa using selected, entry, rfl⟩

structure Elected (node : ModifierNode) (items : List (Int × uint256)) (mapSelectedBlocks : StdMap uint256 StakeIndex)
    (nSelectionIntervalStop : Int) (nStakeModifierPrev : BitVec 64) (p : StakeIndex) : Prop where
  member : (p.getBlockTime, p.hash) ∈ items
  entry : node.mapBlockIndex.lookup p.hash = some p
  fresh : mapSelectedBlocks.lookup p.hash = none
  best : ∀ q, (q.getBlockTime, q.hash) ∈ items → node.mapBlockIndex.lookup q.hash = some q →
    mapSelectedBlocks.lookup q.hash = none → q.getBlockTime ≤ nSelectionIntervalStop →
    p.getBlockTime ≤ nSelectionIntervalStop ∧
      node.hashSelection (node.fModifierV2 items) nStakeModifierPrev p ≤ node.hashSelection (node.fModifierV2 items) nStakeModifierPrev q

theorem mem_takeWhile_of_sorted {items : List (Int × uint256)} (sorted : items.Pairwise fun a b => a.1 ≤ b.1)
    (member : item ∈ items) {stop : Int} (inTime : item.1 ≤ stop) : item ∈ items.takeWhile fun item => item.1 ≤ stop := by
  induction items with
  | nil => exact absurd member List.not_mem_nil
  | cons first items ih =>
    obtain ⟨above, sorted⟩ := List.pairwise_cons.mp sorted
    rcases List.mem_cons.mp member with rfl | later
    · rw [List.takeWhile_cons_of_pos (by simpa using inTime)]
      exact List.mem_cons_self
    · have low := above item later
      rw [List.takeWhile_cons_of_pos (by simpa using low.trans inTime)]
      exact List.mem_cons_of_mem _ (ih sorted later)

theorem selectBlockFromCandidates_spec {items : List (Int × uint256)} (indexed : node.Indexed items)
    (sorted : items.Pairwise fun a b => a.1 ≤ b.1) (left : ∃ item ∈ items, mapSelectedBlocks.lookup item.2 = none) :
    ∃ p, node.selectBlockFromCandidates items mapSelectedBlocks nSelectionIntervalStop nStakeModifierPrev = some p ∧
      node.Elected items mapSelectedBlocks nSelectionIntervalStop nStakeModifierPrev p := by
  have flag : node.selectLoop mapSelectedBlocks nSelectionIntervalStop nStakeModifierPrev none none items =
      node.selectLoop mapSelectedBlocks nSelectionIntervalStop nStakeModifierPrev (some (node.fModifierV2 items)) none items := by
    cases items with
    | nil => rfl
    | cons item items =>
      obtain ⟨q, rfl, entry⟩ := indexed item List.mem_cons_self
      rw [selectLoop, selectLoop, entry]
      simp only [fModifierV2, List.head?_cons, Option.bind_some, entry, Option.map_some, Option.getD_some, Option.getD_none]
  obtain ⟨before, q, after, parts, taken, fresh, entry, first⟩ :=
    @selectLoop_none node mapSelectedBlocks nSelectionIntervalStop nStakeModifierPrev (node.fModifierV2 items) items indexed left
  have indexedAfter : node.Indexed after := by
    intro item member
    exact indexed item (parts ▸ List.mem_append_right before (List.mem_cons_of_mem _ member))
  obtain ⟨b, scanned, lower, from_, best⟩ := @selectLoop_some node mapSelectedBlocks nSelectionIntervalStop nStakeModifierPrev
    (node.fModifierV2 items) after indexedAfter (node.hashSelection (node.fModifierV2 items) nStakeModifierPrev q, q)
  have own : b.1 = node.hashSelection (node.fModifierV2 items) nStakeModifierPrev b.2 := by
    rcases from_ with rfl | later
    · rfl
    · exact later.2.2.2.2
  refine ⟨b.2, ?_, ?_, ?_, ?_, fun q' member entry' fresh' inTime => ?_⟩
  · unfold selectBlockFromCandidates
    rw [flag, first, scanned]
    rfl
  · rcases from_ with rfl | later
    · exact parts ▸ List.mem_append_right before List.mem_cons_self
    · exact parts ▸ List.mem_append_right before (List.mem_cons_of_mem _ later.1)
  · rcases from_ with rfl | later
    · exact entry
    · exact later.2.1
  · rcases from_ with rfl | later
    · exact fresh
    · exact later.2.2.1
  · -- A new candidate in the interval is the first one that was new or comes after it.
    rw [parts] at sorted member
    obtain ⟨_, sortedRest, _⟩ := List.pairwise_append.mp sorted
    obtain ⟨above, sortedAfter⟩ := List.pairwise_cons.mp sortedRest
    have position : q' = q ∨ (q'.getBlockTime, q'.hash) ∈ after := by
      rcases List.mem_append.mp member with earlier | rest
      · exact absurd fresh' (taken _ earlier)
      · rcases List.mem_cons.mp rest with here | later
        · rw [(Prod.mk.inj here).2, entry] at entry'
          exact Or.inl (Option.some.inj entry').symm
        · exact Or.inr later
    rw [← own]
    rcases position with rfl | later
    · refine ⟨?_, lower⟩
      rcases from_ with rfl | chosen
      · exact inTime
      · exact chosen.2.2.2.1
    · refine ⟨?_, best q' (mem_takeWhile_of_sorted sortedAfter later inTime) entry' fresh'⟩
      rcases from_ with rfl | chosen
      · exact (above _ later).trans inTime
      · exact chosen.2.2.2.1

variable (nSelectionIntervalStart : Int) (chosen : List StakeIndex)

def after : Selection :=
  chosen.zipIdx.foldl (fun s round => afterRound round.2 s round.1) { nSelectionIntervalStop := nSelectionIntervalStart }

theorem after_append (p : StakeIndex) :
    after nSelectionIntervalStart (chosen ++ [p]) = afterRound chosen.length (after nSelectionIntervalStart chosen) p := by
  unfold after
  rw [List.zipIdx_append, List.foldl_append, Nat.zero_add]
  rfl

theorem after_lookup (h : uint256) :
    (after nSelectionIntervalStart chosen).mapSelectedBlocks.lookup h = none ↔ h ∉ chosen.map fun p => p.hash := by
  induction chosen using List.reverseRecOn with
  | nil =>
    show (∅ : StdMap uint256 StakeIndex).lookup h = none ↔ _
    simp
  | append_singleton chosen p ih =>
    rw [after_append, List.map_append, List.mem_append, not_or]
    show ((after nSelectionIntervalStart chosen).mapSelectedBlocks.insertNew p.hash p).lookup h = none ↔ _
    unfold StdMap.insertNew
    rw [List.map_singleton, List.mem_singleton]
    by_cases known : ((after nSelectionIntervalStart chosen).mapSelectedBlocks.lookup p.hash).isSome = true
    · rw [if_pos known]
      constructor
      · intro absent
        refine ⟨ih.mp absent, ?_⟩
        rintro rfl
        rw [absent] at known
        exact nomatch known
      · exact fun absent => ih.mpr absent.1
    · rw [if_neg known, StdMap.lookup_insert_ite]
      by_cases same : h = p.hash
      · rw [if_pos same]
        exact ⟨nofun, fun absent => absurd same absent.2⟩
      · rw [if_neg same]
        exact ⟨fun absent => ⟨ih.mp absent, same⟩, fun absent => ih.mpr absent.1⟩

theorem stakeEntropyBit_bits (p : StakeIndex) (i : Nat) :
    (p.getStakeEntropyBit.setWidth 64).getLsbD i = (decide (i = 0) && p.getStakeEntropyBit.getLsbD 0) := by
  unfold StakeIndex.getStakeEntropyBit
  simp only [BitVec.getLsbD_setWidth, BitVec.getLsbD_and]
  by_cases zero : i = 0
  · subst zero
    simp
  · simp [zero]

theorem after_bits {chosen : List StakeIndex} (few : chosen.length ≤ 64) (i : Nat) :
    (after nSelectionIntervalStart chosen).nStakeModifierNew.getLsbD i = ((chosen[i]?).map fun p => p.getStakeEntropyBit.getLsbD 0).getD false := by
  induction chosen using List.reverseRecOn with
  | nil => simp [after]
  | append_singleton chosen p ih =>
    rw [List.length_append, List.length_singleton] at few
    rw [after_append]
    show ((after nSelectionIntervalStart chosen).nStakeModifierNew ||| p.getStakeEntropyBit.setWidth 64 <<< chosen.length).getLsbD i = _
    rw [BitVec.getLsbD_or, ih (by omega), BitVec.getLsbD_shiftLeft, stakeEntropyBit_bits]
    by_cases earlier : i < chosen.length
    · rw [List.getElem?_append_left earlier]
      simp [earlier]
    · rw [List.getElem?_append_right (by omega), List.getElem?_eq_none (by omega : chosen.length ≤ i)]
      by_cases here : i = chosen.length
      · subst here
        have inside : chosen.length < 64 := by omega
        simp [inside]
      · have beyond : i - chosen.length ≠ 0 := by omega
        rw [List.getElem?_eq_none (by rw [List.length_singleton]; omega)]
        simp [beyond]

structure Selects (node : ModifierNode) (blocks : List StakeIndex) (nSelectionIntervalStart : Int) (nStakeModifierPrev : BitVec 64)
    (chosen : List StakeIndex) : Prop where
  distinct : (chosen.map fun p => p.hash).Nodup
  members : ∀ p ∈ chosen, p ∈ blocks
  rounds : ∀ nRound p, chosen[nRound]? = some p →
    let s := after nSelectionIntervalStart (chosen.take nRound)
    let nSelectionIntervalStop := s.nSelectionIntervalStop + getStakeModifierSelectionIntervalSection nRound
    node.selectBlockFromCandidates (sortedByTimestamp blocks) s.mapSelectedBlocks nSelectionIntervalStop nStakeModifierPrev = some p ∧
      node.Elected (sortedByTimestamp blocks) s.mapSelectedBlocks nSelectionIntervalStop nStakeModifierPrev p

variable {blocks chosen : List StakeIndex} {nSelectionIntervalStart : Int}

theorem mem_sortedByTimestamp (blocks : List StakeIndex) (item : Int × uint256) :
    item ∈ sortedByTimestamp blocks ↔ ∃ q ∈ blocks, (q.getBlockTime, q.hash) = item := by
  unfold sortedByTimestamp
  rw [List.mem_mergeSort, List.mem_reverse, List.mem_map]

theorem length_sortedByTimestamp (blocks : List StakeIndex) : (sortedByTimestamp blocks).length = blocks.length := by
  unfold sortedByTimestamp
  rw [List.length_mergeSort, List.length_reverse, List.length_map]

theorem pairLe_iff : pairLe a b = true ↔ a.1 < b.1 ∨ a.1 = b.1 ∧ a.2 ≤ b.2 := by
  simp [pairLe]

theorem sortedByTimestamp_sorted (blocks : List StakeIndex) : (sortedByTimestamp blocks).Pairwise fun a b => a.1 ≤ b.1 := by
  have trans (a b c : Int × uint256) (first : pairLe a b = true) (second : pairLe b c = true) : pairLe a c = true := by
    rw [pairLe_iff] at first second ⊢
    rcases first with less | ⟨same, below⟩
    · rcases second with less' | ⟨same', _⟩
      · exact Or.inl (less.trans less')
      · exact Or.inl (same' ▸ less)
    · rcases second with less' | ⟨same', below'⟩
      · exact Or.inl (same ▸ less')
      · exact Or.inr ⟨same.trans same', BitVec.le_trans below below'⟩
  have total (a b : Int × uint256) : (pairLe a b || pairLe b a) = true := by
    rw [Bool.or_eq_true, pairLe_iff, pairLe_iff]
    rcases lt_trichotomy a.1 b.1 with less | same | more
    · exact Or.inl (Or.inl less)
    · exact (BitVec.le_total a.2 b.2).imp (fun below => Or.inr ⟨same, below⟩) fun above => Or.inr ⟨same.symm, above⟩
    · exact Or.inr (Or.inl more)
  refine (List.pairwise_mergeSort trans total _).imp fun ordered => ?_
  rcases pairLe_iff.mp ordered with less | ⟨same, _⟩
  · exact le_of_lt less
  · exact le_of_eq same

theorem indexed_sortedByTimestamp (known : ∀ q ∈ blocks, node.mapBlockIndex.lookup q.hash = some q) : node.Indexed (sortedByTimestamp blocks) := by
  intro item member
  obtain ⟨q, inside, rfl⟩ := (mem_sortedByTimestamp blocks item).mp member
  exact ⟨q, rfl, known q inside⟩

theorem candidate_left (distinct : (blocks.map fun q => q.hash).Nodup) (few : chosen.length < blocks.length) :
    ∃ item ∈ sortedByTimestamp blocks, (after nSelectionIntervalStart chosen).mapSelectedBlocks.lookup item.2 = none := by
  by_contra none
  have all : (blocks.map fun q => q.hash) ⊆ chosen.map fun p => p.hash := by
    intro h member
    obtain ⟨q, inside, rfl⟩ := List.mem_map.mp member
    by_contra absent
    exact none ⟨_, (mem_sortedByTimestamp blocks _).mpr ⟨q, inside, rfl⟩, (after_lookup nSelectionIntervalStart chosen q.hash).mpr absent⟩
  have short := distinct.length_le_of_subset all
  rw [List.length_map, List.length_map] at short
  omega

theorem Selects.push (selects : node.Selects blocks nSelectionIntervalStart nStakeModifierPrev chosen)
    (known : ∀ q ∈ blocks, node.mapBlockIndex.lookup q.hash = some q)
    (selected : node.selectBlockFromCandidates (sortedByTimestamp blocks) (after nSelectionIntervalStart chosen).mapSelectedBlocks ((after nSelectionIntervalStart chosen).nSelectionIntervalStop + getStakeModifierSelectionIntervalSection chosen.length) nStakeModifierPrev = some p)
    (elected : node.Elected (sortedByTimestamp blocks) (after nSelectionIntervalStart chosen).mapSelectedBlocks ((after nSelectionIntervalStart chosen).nSelectionIntervalStop + getStakeModifierSelectionIntervalSection chosen.length) nStakeModifierPrev p) :
    node.Selects blocks nSelectionIntervalStart nStakeModifierPrev (chosen ++ [p]) := by
  refine ⟨?_, fun q member => ?_, fun nRound q here => ?_⟩
  · rw [List.map_append, List.map_singleton]
    apply List.nodup_append.mpr
    refine ⟨selects.distinct, List.nodup_singleton _, fun h member h' last => ?_⟩
    rw [List.mem_singleton.mp last]
    intro same
    exact (after_lookup nSelectionIntervalStart chosen p.hash).mp elected.fresh (same ▸ member)
  · rcases List.mem_append.mp member with earlier | last
    · exact selects.members q earlier
    · obtain rfl := List.mem_singleton.mp last
      obtain ⟨q', inside, same⟩ := (mem_sortedByTimestamp blocks _).mp elected.member
      have entry := known q' inside
      rw [(Prod.mk.inj same).2, elected.entry] at entry
      obtain rfl := Option.some.inj entry
      exact inside
  · by_cases earlier : nRound < chosen.length
    · rw [List.getElem?_append_left earlier] at here
      rw [List.take_append_of_le_length (Nat.le_of_lt earlier)]
      exact selects.rounds nRound q here
    · have last : nRound = chosen.length := by
        have inside := (List.getElem?_eq_some_iff.mp here).1
        rw [List.length_append, List.length_singleton] at inside
        omega
      subst last
      rw [List.getElem?_concat_length] at here
      obtain rfl := Option.some.inj here
      rw [List.take_left]
      exact ⟨selected, elected⟩

theorem rounds_spec (known : ∀ q ∈ blocks, node.mapBlockIndex.lookup q.hash = some q) (distinct : (blocks.map fun q => q.hash).Nodup)
    {left : Nat} (room : chosen.length + left ≤ blocks.length) (selects : node.Selects blocks nSelectionIntervalStart nStakeModifierPrev chosen) :
    ∃ chosen', node.rounds (sortedByTimestamp blocks) nStakeModifierPrev left chosen.length (after nSelectionIntervalStart chosen) =
        some (after nSelectionIntervalStart chosen') ∧ chosen'.length = chosen.length + left ∧
      node.Selects blocks nSelectionIntervalStart nStakeModifierPrev chosen' := by
  induction left generalizing chosen with
  | zero => exact ⟨chosen, rfl, rfl, selects⟩
  | succ left ih =>
    obtain ⟨p, selected, elected⟩ := @selectBlockFromCandidates_spec node _
      ((after nSelectionIntervalStart chosen).nSelectionIntervalStop + getStakeModifierSelectionIntervalSection chosen.length) nStakeModifierPrev _
      (indexed_sortedByTimestamp known) (sortedByTimestamp_sorted blocks) (@candidate_left _ chosen nSelectionIntervalStart distinct (by omega))
    have next := selects.push known selected elected
    have size : (chosen ++ [p]).length = chosen.length + 1 := by rw [List.length_append, List.length_singleton]
    obtain ⟨chosen', run, length, selects'⟩ := ih (by omega) next
    refine ⟨chosen', ?_, by omega, selects'⟩
    rw [rounds, selected, Option.bind_some, ← after_append, ← size]
    exact run

theorem lastModifier_generated {ancestors : List StakeIndex} (generated : ∃ q ∈ p :: ancestors, q.generatedStakeModifier = true) :
    (lastModifier p ancestors).generatedStakeModifier = true := by
  induction ancestors generalizing p with
  | nil =>
    obtain ⟨q, member, flag⟩ := generated
    rw [List.mem_singleton.mp member] at flag
    exact flag
  | cons pprev ancestors ih =>
    rw [lastModifier]
    split
    · next own => exact own
    · next own =>
      apply ih
      obtain ⟨q, member, flag⟩ := generated
      rcases List.mem_cons.mp member with rfl | above
      · exact absurd flag own
      · exact ⟨q, above, flag⟩

/-- The selection does not fail, and the blocks that it takes the bits from are different candidates. The first block gets a fixed modifier. -/
theorem computeNextStakeModifier_selects {pindexPrev : StakeIndex} {ancestors : List StakeIndex}
    (known : ∀ q ∈ pindexPrev :: ancestors, node.mapBlockIndex.lookup q.hash = some q)
    (distinct : ((pindexPrev :: ancestors).map fun q => q.hash).Nodup)
    (generated : ∃ q ∈ pindexPrev :: ancestors, q.generatedStakeModifier = true) :
    ∃ nStakeModifier fGeneratedStakeModifier,
      node.computeNextStakeModifier (pindexPrev :: ancestors) = some (nStakeModifier, fGeneratedStakeModifier) ∧
      (fGeneratedStakeModifier = true → pindexPrev.nHeight ≠ 0 → ∃ chosen,
        node.Selects (candidates pindexPrev ancestors) (selectionIntervalStart pindexPrev)
          ((lastModifier pindexPrev ancestors).getStakeModifierV1 node.network) chosen ∧
        chosen.length = min 64 (candidates pindexPrev ancestors).length ∧
        ∀ i, nStakeModifier.getLsbD i = ((chosen[i]?).map fun p => p.getStakeEntropyBit.getLsbD 0).getD false) ∧
      (pindexPrev.nHeight = 0 → nStakeModifier = node.stakemodifier ∧ fGeneratedStakeModifier = true) := by
  by_cases first : pindexPrev.nHeight = 0
  · rw [computeNextStakeModifier, if_pos first]
    exact ⟨_, _, rfl, fun _ higher => absurd first higher, fun _ => ⟨rfl, rfl⟩⟩
  · rw [computeNextStakeModifier, if_neg first]
    dsimp only
    rw [lastModifier_generated generated, if_neg (by decide)]
    split
    · exact ⟨_, _, rfl, nofun, fun genesis => absurd genesis first⟩
    · have part : List.Sublist (candidates pindexPrev ancestors) (pindexPrev :: ancestors) := List.takeWhile_sublist _
      have size := length_sortedByTimestamp (candidates pindexPrev ancestors)
      have start : node.Selects (candidates pindexPrev ancestors) (selectionIntervalStart pindexPrev)
          ((lastModifier pindexPrev ancestors).getStakeModifierV1 node.network) [] := ⟨List.nodup_nil, nofun, nofun⟩
      obtain ⟨chosen, run, length, selects⟩ := rounds_spec (fun q member => known q (part.subset member)) (distinct.sublist (part.map _))
        (show [].length + min 64 (sortedByTimestamp (candidates pindexPrev ancestors)).length ≤ _ by
          rw [size, List.length_nil]
          omega) start
      rw [List.length_nil, Nat.zero_add, size] at length
      refine ⟨_, true, ?_, fun _ _ => ⟨chosen, selects, length, after_bits (selectionIntervalStart pindexPrev) (by omega)⟩,
        fun genesis => absurd genesis first⟩
      have run' : node.rounds (sortedByTimestamp (candidates pindexPrev ancestors))
          ((lastModifier pindexPrev ancestors).getStakeModifierV1 node.network)
          (min 64 (sortedByTimestamp (candidates pindexPrev ancestors)).length) 0
          { nSelectionIntervalStop := selectionIntervalStart pindexPrev } = some (after (selectionIntervalStart pindexPrev) chosen) := run
      rw [run', Option.map_some]

def earlier : StakeIndex := { hash := 5, nHeight := 1, nTime := 1000000, generatedStakeModifier := true }
def later : StakeIndex := { hash := 6, pprev := some 5, nHeight := 2, nTime := 1000120, isProofOfStake := true }

def twoBlocks : ModifierNode where
  network := .main
  mapBlockIndex := ((∅ : StdMap uint256 StakeIndex).insert 5 earlier).insert 6 later
  hash256 := fun bytes => BitVec.ofNat 256 (leValue bytes)
  stakemodifier := 0x1000

theorem twoBlocks_selects : ∃ nStakeModifier fGeneratedStakeModifier,
    twoBlocks.computeNextStakeModifier [later, earlier] = some (nStakeModifier, fGeneratedStakeModifier) ∧
      (fGeneratedStakeModifier = true → later.nHeight ≠ 0 → ∃ chosen,
        twoBlocks.Selects (candidates later [earlier]) (selectionIntervalStart later)
          ((lastModifier later [earlier]).getStakeModifierV1 twoBlocks.network) chosen ∧
        chosen.length = min 64 (candidates later [earlier]).length ∧
        ∀ i, nStakeModifier.getLsbD i = ((chosen[i]?).map fun p => p.getStakeEntropyBit.getLsbD 0).getD false) ∧
      (later.nHeight = 0 → nStakeModifier = twoBlocks.stakemodifier ∧ fGeneratedStakeModifier = true) := by
  apply computeNextStakeModifier_selects
  · intro q member
    rcases List.mem_pair.mp member with rfl | rfl
    · rfl
    · rfl
  · decide
  · exact ⟨earlier, by decide, rfl⟩

def firstBlock : StakeIndex := { hash := 7, nHeight := 0, nTime := 1000000, generatedStakeModifier := true }

def oneBlock : ModifierNode where
  network := .main
  mapBlockIndex := (∅ : StdMap uint256 StakeIndex).insert 7 firstBlock
  hash256 := fun bytes => BitVec.ofNat 256 (leValue bytes)
  stakemodifier := 0x1000

/-- After the first block the modifier is an address, whose bits are not those of selected blocks. -/
theorem first_modifier_not_selected : oneBlock.mapBlockIndex.lookup firstBlock.hash = some firstBlock ∧ firstBlock.generatedStakeModifier = true ∧
    oneBlock.computeNextStakeModifier [firstBlock] = some (0x1000, true) ∧
    ¬∃ chosen : List StakeIndex, chosen.length = min 64 (candidates firstBlock []).length ∧
      ∀ i, (0x1000 : BitVec 64).getLsbD i = ((chosen[i]?).map fun p => p.getStakeEntropyBit.getLsbD 0).getD false := by
  refine ⟨rfl, rfl, rfl, ?_⟩
  intro selected
  obtain ⟨chosen, length, bits⟩ := selected
  have one : chosen.length = 1 := length.trans (by decide)
  have bit := bits 12
  rw [List.getElem?_eq_none (by omega)] at bit
  exact absurd bit (by decide)

end ModifierNode

end SchillingCoin
