import SchillingCoin.Lib.Ranking
import SchillingCoin.Masternode.Collateral

/-!
The ranking of masternodes by score, after `GetBlockHash` and `CalculateScore` in `masternode.cpp` and
`GetMasternodeRank` and `GetMasternodeByRank` in `masternodeman.cpp`, and when two nodes agree on it.
-/

namespace SchillingCoin

def MN_WINNER_MINIMUM_AGE : Int := 8000

/-- The double hash of the score, over a block hash alone and with the outpoint of a masternode. -/
structure ScoreCrypto extends MasternodeCrypto where
  hashBlock : uint256 → uint256
  hashBlockAux : uint256 → uint256 → uint256

namespace BlockHashes

/-- The loop of `GetBlockHash`, over the chain from its tip down. It stops before the genesis block. -/
def readBack (nBlocksAgo : Int) : Int → List CBlockIndex → Option uint256
  | _, [] => none
  | n, BlockReading :: rest =>
    if BlockReading.nHeight > 0 then
      if n ≥ nBlocksAgo then some BlockReading.getBlockHash else readBack nBlocksAgo (n + 1) rest
    else none

/-- The block that a chain with this tip gives for a height, the one before it. A negative height gives the tip. -/
def readChain (chainActive : CChain) (tip : CBlockIndex) (nBlockHeight : Int) : Option uint256 :=
  if tip.nHeight = 0 ∨ (tip.nHeight : Int) + 1 < nBlockHeight then none
  else
    let nBlocksAgo := if nBlockHeight > 0 then (tip.nHeight : Int) + 1 - nBlockHeight else 0
    readBack nBlocksAgo 0 chainActive.vChain.reverse

def cacheKey (tip : CBlockIndex) (nBlockHeight : Int) : Int :=
  let nBlockHeight := nBlockHeight.bmod (2 ^ 32)
  if nBlockHeight = 0 then tip.nHeight else nBlockHeight

/-- `GetBlockHash`. The cache is asked before the chain, and nothing is ever taken out of it. -/
def getBlockHash (chainActive : CChain) (mapCacheBlockHashes : StdMap Int uint256) (nBlockHeight : Int) :
    Option uint256 × StdMap Int uint256 :=
  match chainActive.vChain.getLast? with
  | none => (none, mapCacheBlockHashes)
  | some tip =>
    let nBlockHeight := cacheKey tip nBlockHeight
    match mapCacheBlockHashes.lookup nBlockHeight with
    | some hash => (some hash, mapCacheBlockHashes)
    | none =>
      match readChain chainActive tip nBlockHeight with
      | none => (none, mapCacheBlockHashes)
      | some hash => (some hash, mapCacheBlockHashes.insert nBlockHeight hash)

end BlockHashes

def getCompact (n : uint256) : Nat :=
  let bits := if n = 0 then 0 else n.toNat.log2 + 1
  let nSize := (bits + 7) / 8
  let nCompact := if nSize ≤ 3 then (n.toNat <<< (8 * (3 - nSize))) % 2 ^ 32 else (n.toNat >>> (8 * (nSize - 3))) % 2 ^ 32
  if nCompact.testBit 23 then nCompact >>> 8 ||| (nSize + 1) <<< 24 else nCompact ||| nSize <<< 24

structure RankState where
  man : CMasternodeMan := {}
  mapCacheBlockHashes : StdMap Int uint256 := ∅

namespace CMasternode

def scoreOf (crypto : ScoreCrypto) (mn : CMasternode) : Option uint256 → uint256
  | none => 0
  | some hash =>
    let aux := mn.vin.prevout.hash + BitVec.ofNat 256 mn.vin.prevout.n
    let hash2 := crypto.hashBlock hash
    let hash3 := crypto.hashBlockAux hash aux
    if hash3 > hash2 then hash3 - hash2 else hash2 - hash3

def calculateScore (crypto : ScoreCrypto) (chainActive : CChain) (mapCacheBlockHashes : StdMap Int uint256) (nBlockHeight : Int)
    (mn : CMasternode) : uint256 × StdMap Int uint256 :=
  let found := BlockHashes.getBlockHash chainActive mapCacheBlockHashes nBlockHeight
  (mn.scoreOf crypto found.1, found.2)

end CMasternode

namespace Ranks

variable (ctx : MasternodeManContext) (mn : CMasternode) (crypto : ScoreCrypto) (minProtocol : Int)
  (sort : List (Int × CTxIn) → List (Int × CTxIn)) (s : RankState) (nBlockHeight : Int)

def tooYoung : Bool :=
  ctx.chain.isSporkActive .masternodePaymentEnforcement && decide (ctx.getAdjustedTime - mn.sigTime < MN_WINNER_MINIMUM_AGE)

/-- The entry as it is looked at, checked where only active ones count. -/
def checkIf (ctx : MasternodeManContext) (fOnlyActive : Bool) (mn : CMasternode) : CMasternode :=
  if fOnlyActive then mn.check crypto.toMasternodeCrypto ctx false else mn

def scanScores (crypto : ScoreCrypto) (ctx : MasternodeManContext) (skips : CMasternode → Bool) (fOnlyActive : Bool)
    (nBlockHeight : Int) : List CMasternode → StdMap Int uint256 → List (Int × CTxIn) × List CMasternode × StdMap Int uint256
  | [], cache => ([], [], cache)
  | mn :: rest, cache =>
    if skips mn then
      let scanned := scanScores crypto ctx skips fOnlyActive nBlockHeight rest cache
      (scanned.1, mn :: scanned.2.1, scanned.2.2)
    else
      let mn := checkIf crypto ctx fOnlyActive mn
      if fOnlyActive && !mn.isEnabled then
        let scanned := scanScores crypto ctx skips fOnlyActive nBlockHeight rest cache
        (scanned.1, mn :: scanned.2.1, scanned.2.2)
      else
        let n := mn.calculateScore crypto ctx.chainActive cache nBlockHeight
        let scanned := scanScores crypto ctx skips fOnlyActive nBlockHeight rest n.2
        ((getCompact n.1, mn.vin) :: scanned.1, mn :: scanned.2.1, scanned.2.2)

/-- The rank of the first entry with the outpoint, counted on from `rank`. -/
def findRank (vin : CTxIn) : Int → List (Int × CTxIn) → Int
  | _, [] => -1
  | rank, s :: rest => if s.2.prevout = vin.prevout then rank + 1 else findRank vin (rank + 1) rest

def atRank (nRank : Int) : Int → List (Int × CTxIn) → Option CTxIn
  | _, [] => none
  | rank, s :: rest => if rank + 1 = nRank then some s.2 else atRank nRank (rank + 1) rest

def skipsRank (mn : CMasternode) : Bool :=
  decide (mn.protocolVersion < minProtocol) || tooYoung ctx mn

def skipsByRank (mn : CMasternode) : Bool := decide (mn.protocolVersion < minProtocol)

/-- What `std::sort` from `rbegin` to `rend` by `CompareScoreTxIn` promises. -/
def SortsByScore : Prop := ∀ l, IsRanking Prod.fst l (sort l)

def getMasternodeRank (ctx : MasternodeManContext) (s : RankState) (vin : CTxIn) (nBlockHeight minProtocol : Int)
    (fOnlyActive : Bool) : Int × RankState :=
  let found := BlockHashes.getBlockHash ctx.chainActive s.mapCacheBlockHashes nBlockHeight
  if found.1.isNone then (-1, { s with mapCacheBlockHashes := found.2 })
  else
    let scanned := scanScores crypto ctx (skipsRank ctx minProtocol) fOnlyActive nBlockHeight s.man.vMasternodes found.2
    (findRank vin 0 (sort scanned.1),
      { man := { s.man with vMasternodes := scanned.2.1 }, mapCacheBlockHashes := scanned.2.2 })

def getMasternodeByRank (ctx : MasternodeManContext) (s : RankState) (nRank nBlockHeight minProtocol : Int) (fOnlyActive : Bool) :
    Option CMasternode × RankState :=
  let scanned := scanScores crypto ctx (skipsByRank minProtocol) fOnlyActive nBlockHeight s.man.vMasternodes s.mapCacheBlockHashes
  let man := { s.man with vMasternodes := scanned.2.1 }
  ((atRank nRank 0 (sort scanned.1)).bind man.find, { man := man, mapCacheBlockHashes := scanned.2.2 })

inductive Op where
  | list (op : CMasternodeMan.Op)
  | getBlockHash (nBlockHeight : Int)
  | getMasternodeRank (vin : CTxIn) (nBlockHeight minProtocol : Int) (fOnlyActive : Bool)
  | getMasternodeByRank (nRank nBlockHeight minProtocol : Int) (fOnlyActive : Bool)

/-- Each operation comes with what the node knows then, its active chain among it. -/
def step (crypto : ScoreCrypto) (sort : List (Int × CTxIn) → List (Int × CTxIn)) (s : RankState) (d : MasternodeManContext × Op) :
    RankState :=
  match d.2 with
  | .list op => { s with man := (s.man.step crypto.toMasternodeCrypto (d.1, op)).2 }
  | .getBlockHash nBlockHeight =>
    { s with mapCacheBlockHashes := (BlockHashes.getBlockHash d.1.chainActive s.mapCacheBlockHashes nBlockHeight).2 }
  | .getMasternodeRank vin nBlockHeight minProtocol fOnlyActive =>
    (getMasternodeRank crypto sort d.1 s vin nBlockHeight minProtocol fOnlyActive).2
  | .getMasternodeByRank nRank nBlockHeight minProtocol fOnlyActive =>
    (getMasternodeByRank crypto sort d.1 s nRank nBlockHeight minProtocol fOnlyActive).2

def run (history : List (MasternodeManContext × Op)) : RankState :=
  history.foldl (step crypto sort) {}

/-- What `GetBlockHash` answers. -/
def blockHash : Option uint256 :=
  (BlockHashes.getBlockHash ctx.chainActive s.mapCacheBlockHashes nBlockHeight).1

def score (ctx : MasternodeManContext) (s : RankState) (nBlockHeight : Int) (mn : CMasternode) : Int :=
  getCompact (mn.scoreOf crypto (blockHash ctx s nBlockHeight))

def isActive (ctx : MasternodeManContext) (fOnlyActive : Bool) (mn : CMasternode) : Bool :=
  !(fOnlyActive && !(checkIf crypto ctx fOnlyActive mn).isEnabled)

def listed (ctx : MasternodeManContext) (minProtocol : Int) (fOnlyActive : Bool) (mn : CMasternode) : Bool :=
  !skipsByRank minProtocol mn && isActive crypto ctx fOnlyActive mn

def ranked (ctx : MasternodeManContext) (s : RankState) (nBlockHeight minProtocol : Int) (fOnlyActive : Bool) (mn : CMasternode) :
    Bool :=
  (blockHash ctx s nBlockHeight).isSome && (!skipsRank ctx minProtocol mn && isActive crypto ctx fOnlyActive mn)

def scored (ctx : MasternodeManContext) (s : RankState) (nBlockHeight : Int) (test : CMasternode → Bool) : List (Int × CTxIn) :=
  (s.man.vMasternodes.filter test).map fun mn => (score crypto ctx s nBlockHeight mn, mn.vin)

def prevoutOf (s : Int × CTxIn) : COutPoint := s.2.prevout

end Ranks

namespace BlockHashes

variable (chainActive : CChain) (cache : StdMap Int uint256) (nBlockHeight : Int)

theorem getBlockHash_cases :
    (getBlockHash chainActive cache nBlockHeight).2 = cache ∨
      ∃ tip hash, chainActive.vChain.getLast? = some tip ∧ cache.lookup (cacheKey tip nBlockHeight) = none ∧
        readChain chainActive tip (cacheKey tip nBlockHeight) = some hash ∧
        getBlockHash chainActive cache nBlockHeight = (some hash, cache.insert (cacheKey tip nBlockHeight) hash) := by
  unfold getBlockHash
  cases isTip : chainActive.vChain.getLast? with
  | none => exact Or.inl rfl
  | some tip =>
    cases cached : cache.lookup (cacheKey tip nBlockHeight) with
    | some hash => exact Or.inl (by simp [cached])
    | none =>
      cases read : readChain chainActive tip (cacheKey tip nBlockHeight) with
      | none => exact Or.inl (by simp [cached, read])
      | some hash => exact Or.inr ⟨tip, hash, rfl, cached, read, by simp [cached, read]⟩

theorem getBlockHash_again :
    getBlockHash chainActive (getBlockHash chainActive cache nBlockHeight).2 nBlockHeight = getBlockHash chainActive cache nBlockHeight := by
  rcases getBlockHash_cases chainActive cache nBlockHeight with same | ⟨tip, hash, isTip, _, _, answer⟩
  · rw [same]
  · rw [answer]
    unfold getBlockHash
    simp [isTip]

end BlockHashes

namespace Ranks

open Ranking

variable (crypto : ScoreCrypto) (ctx : MasternodeManContext)

theorem checkIf_vin (fOnlyActive : Bool) (mn : CMasternode) : (checkIf crypto ctx fOnlyActive mn).vin = mn.vin := by
  unfold checkIf
  split
  · rw [CMasternodeMan.check_vin]
  · rfl

theorem scoreOf_checkIf (fOnlyActive : Bool) (mn : CMasternode) (hash : Option uint256) :
    (checkIf crypto ctx fOnlyActive mn).scoreOf crypto hash = mn.scoreOf crypto hash := by
  unfold CMasternode.scoreOf
  rw [checkIf_vin]

section Scan

variable (skips : CMasternode → Bool) (fOnlyActive : Bool) (nBlockHeight : Int)

theorem scanScores_scores (l : List CMasternode) (cache : StdMap Int uint256) :
    (scanScores crypto ctx skips fOnlyActive nBlockHeight l cache).1 =
      (l.filter fun mn => !skips mn && isActive crypto ctx fOnlyActive mn).map fun mn =>
        ((getCompact (mn.scoreOf crypto (BlockHashes.getBlockHash ctx.chainActive cache nBlockHeight).1) : Int), mn.vin) := by
  induction l generalizing cache with
  | nil => rfl
  | cons mn rest ih =>
    unfold scanScores
    dsimp only
    by_cases skipped : skips mn = true
    · rw [if_pos skipped, List.filter_cons_of_neg (by simp [skipped])]
      exact ih cache
    · rw [if_neg skipped]
      by_cases inactive : (fOnlyActive && !(checkIf crypto ctx fOnlyActive mn).isEnabled) = true
      · rw [if_pos inactive, List.filter_cons_of_neg (by simp [isActive, inactive])]
        exact ih cache
      · rw [if_neg inactive, List.filter_cons_of_pos (by simp [isActive, inactive, skipped]), List.map_cons]
        -- The rest is scored with the cache as this entry left it, and that answers the same.
        dsimp only [CMasternode.calculateScore]
        rw [ih, BlockHashes.getBlockHash_again, scoreOf_checkIf, checkIf_vin]

theorem scanScores_prevouts (l : List CMasternode) (cache : StdMap Int uint256) :
    ((scanScores crypto ctx skips fOnlyActive nBlockHeight l cache).2.1.map fun mn => mn.vin.prevout) =
      l.map fun mn => mn.vin.prevout := by
  induction l generalizing cache with
  | nil => rfl
  | cons mn rest ih =>
    unfold scanScores
    dsimp only
    split
    · simp only [List.map_cons, ih]
    · split <;> simp only [List.map_cons, checkIf_vin, ih]

end Scan

theorem findRank_eq (vin : CTxIn) (rank : Int) (s : List (Int × CTxIn)) :
    findRank vin rank s = (place? prevoutOf s vin.prevout).elim (-1) fun i => rank + i + 1 := by
  induction s generalizing rank with
  | nil => rfl
  | cons e rest ih =>
    unfold findRank
    by_cases here : e.2.prevout = vin.prevout
    · have place : place? prevoutOf (e :: rest) vin.prevout = some 0 := by
        simp [place?, Ranking.place, prevoutOf, here]
      simp [here, place]
    · have place : place? prevoutOf (e :: rest) vin.prevout = (place? prevoutOf rest vin.prevout).map (· + 1) := by
        have other : vin.prevout ≠ e.2.prevout := fun same => here same.symm
        unfold place? Ranking.place
        simp only [List.map_cons, List.mem_cons, prevoutOf, other, false_or, apply_ite (Option.map (· + 1)), Option.map_some, Option.map_none]
        rw [List.idxOf_cons_ne _ (fun same => here same)]
      rw [if_neg here, ih, place]
      cases place? prevoutOf rest vin.prevout with
      | none => rfl
      | some i => simp; omega

theorem atRank_eq (i : ℕ) (rank : Int) (s : List (Int × CTxIn)) : atRank (rank + i + 1) rank s = s[i]?.map Prod.snd := by
  induction s generalizing rank i with
  | nil => rfl
  | cons e rest ih =>
    unfold atRank
    cases i with
    | zero => simp
    | succ i =>
      rw [if_neg (by omega), List.getElem?_cons_succ, ← ih i (rank + 1)]
      congr 1
      omega

variable {sort : List (Int × CTxIn) → List (Int × CTxIn)} (s : RankState) (nBlockHeight minProtocol : Int) (fOnlyActive : Bool)

/-- The scores that `GetMasternodeRank` sorts, none for an unknown block. -/
abbrev rankedScores : List (Int × CTxIn) :=
  scored crypto ctx s nBlockHeight (ranked crypto ctx s nBlockHeight minProtocol fOnlyActive)

abbrev listedScores : List (Int × CTxIn) := scored crypto ctx s nBlockHeight (listed crypto ctx minProtocol fOnlyActive)

theorem getMasternodeRank_eq (sorts : SortsByScore sort) (vin : CTxIn) :
    (getMasternodeRank crypto sort ctx s vin nBlockHeight minProtocol fOnlyActive).1 =
      (place? prevoutOf (sort (rankedScores crypto ctx s nBlockHeight minProtocol fOnlyActive)) vin.prevout).elim (-1)
        fun i => (i : Int) + 1 := by
  unfold getMasternodeRank
  dsimp only
  by_cases unknown : (BlockHashes.getBlockHash ctx.chainActive s.mapCacheBlockHashes nBlockHeight).1.isNone = true
  · have empty : rankedScores crypto ctx s nBlockHeight minProtocol fOnlyActive = [] := by
      have none_ : (blockHash ctx s nBlockHeight).isSome = false := by simpa [blockHash] using unknown
      simp [rankedScores, scored, ranked, none_]
    have sorted : sort [] = [] := (sorts []).perm.eq_nil
    rw [if_pos unknown, empty, sorted]
    rfl
  · rw [if_neg unknown, findRank_eq, scanScores_scores, BlockHashes.getBlockHash_again]
    have known : (blockHash ctx s nBlockHeight).isSome = true := by
      simpa [blockHash, Option.isSome_iff_ne_none] using unknown
    have test : ranked crypto ctx s nBlockHeight minProtocol fOnlyActive =
        fun mn => !skipsRank ctx minProtocol mn && isActive crypto ctx fOnlyActive mn := by
      funext mn
      simp [ranked, known]
    unfold rankedScores scored
    rw [test]
    simp only [zero_add]
    rfl

theorem getMasternodeByRank_iff (sorts : SortsByScore sort) (i : ℕ) (prevout : COutPoint) :
    (∃ mn, (getMasternodeByRank crypto sort ctx s (i + 1) nBlockHeight minProtocol fOnlyActive).1 = some mn ∧
        mn.vin.prevout = prevout) ↔
      (sort (listedScores crypto ctx s nBlockHeight minProtocol fOnlyActive))[i]?.map prevoutOf = some prevout := by
  have at_ := atRank_eq i 0
  simp only [zero_add] at at_
  unfold getMasternodeByRank
  dsimp only
  rw [at_, scanScores_scores]
  change (∃ mn, ((sort (listedScores crypto ctx s nBlockHeight minProtocol fOnlyActive))[i]?.map Prod.snd).bind _ = some mn ∧ _) ↔ _
  have prevouts := scanScores_prevouts crypto ctx (skipsByRank minProtocol) fOnlyActive nBlockHeight s.man.vMasternodes
    s.mapCacheBlockHashes
  generalize (scanScores crypto ctx (skipsByRank minProtocol) fOnlyActive nBlockHeight s.man.vMasternodes
    s.mapCacheBlockHashes).2.1 = checked at prevouts
  cases there : (sort (listedScores crypto ctx s nBlockHeight minProtocol fOnlyActive))[i]? with
  | none => simp
  | some e =>
    simp only [Option.map_some, Option.bind_some, Option.some.injEq]
    -- The entry is one of the list, so it is found.
    have member : e.2.prevout ∈ checked.map fun mn => mn.vin.prevout := by
      rw [prevouts]
      obtain ⟨mn, inside, same⟩ := List.mem_map.mp ((sorts _).mem_iff.mp (List.mem_of_getElem? there))
      rw [← same]
      exact List.mem_map_of_mem (List.mem_filter.mp inside).1
    constructor
    · rintro ⟨mn, found, same⟩
      rw [← same]
      exact (CMasternodeMan.find_prevout found).symm
    · intro same
      cases found : CMasternodeMan.find { s.man with vMasternodes := checked } e.2 with
      | none => exact absurd member (CMasternodeMan.find_none found)
      | some mn => exact ⟨mn, rfl, (CMasternodeMan.find_prevout found).trans same⟩

end Ranks

end SchillingCoin
