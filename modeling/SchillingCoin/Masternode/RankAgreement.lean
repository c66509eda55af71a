import SchillingCoin.Masternode.Ranks

/-!
When two nodes with the same active chain, time, sporks and masternodes rank the masternodes alike.
-/

namespace SchillingCoin

namespace Ranks

open Ranking

structure SameView (ctxA ctxB : MasternodeManContext) : Prop where
  chainActive : ctxA.chainActive = ctxB.chainActive
  adjustedTime : ctxA.getAdjustedTime = ctxB.getAdjustedTime
  sporks : ctxA.chain.isSporkActive = ctxB.chain.isSporkActive

variable (crypto : ScoreCrypto)

section Statements

variable (ctxA : MasternodeManContext) (a : RankState) (ctxB : MasternodeManContext) (b : RankState)
  (nBlockHeight minProtocol : Int) (fOnlyActive : Bool)

def FoundByRank (sort : List (Int × CTxIn) → List (Int × CTxIn)) (ctx : MasternodeManContext) (s : RankState) : Prop :=
  ∀ (vin : CTxIn) (r : Int), (getMasternodeRank crypto sort ctx s vin nBlockHeight minProtocol fOnlyActive).1 = r → 0 < r →
    ∃ mn, (getMasternodeByRank crypto sort ctx s r nBlockHeight minProtocol fOnlyActive).1 = some mn ∧
      mn.vin.prevout = vin.prevout

/-- Whatever the sorts do with ties, both nodes give the same ranks, and ranks find their masternodes. -/
def RankingAgrees : Prop :=
  ∀ sortA sortB, SortsByScore sortA → SortsByScore sortB →
    (∀ vin, (getMasternodeRank crypto sortA ctxA a vin nBlockHeight minProtocol fOnlyActive).1 =
      (getMasternodeRank crypto sortB ctxB b vin nBlockHeight minProtocol fOnlyActive).1) ∧
    FoundByRank crypto nBlockHeight minProtocol fOnlyActive sortA ctxA a ∧
    FoundByRank crypto nBlockHeight minProtocol fOnlyActive sortB ctxB b

/-- Entries that only `GetMasternodeByRank` counts have scores below all that are ranked. -/
def YoungBelow (ctx : MasternodeManContext) (s : RankState) : Prop :=
  ∀ mn ∈ s.man.vMasternodes, ∀ young ∈ s.man.vMasternodes,
    ranked crypto ctx s nBlockHeight minProtocol fOnlyActive mn = true → listed crypto ctx minProtocol fOnlyActive young = true →
    tooYoung ctx young = true → score crypto ctx s nBlockHeight young < score crypto ctx s nBlockHeight mn

structure RankingDetermined : Prop where
  /-- Both nodes know a block and find an entry enabled, or neither does. -/
  sameActive : ∀ mn ∈ a.man.vMasternodes, minProtocol ≤ mn.protocolVersion → tooYoung ctxA mn = false →
    ((blockHash ctxA a nBlockHeight).isSome ∧ isActive crypto ctxA fOnlyActive mn ↔
      (blockHash ctxB b nBlockHeight).isSome ∧ isActive crypto ctxB fOnlyActive mn)
  noTies : ∀ mn ∈ a.man.vMasternodes, ∀ mn' ∈ a.man.vMasternodes,
    ranked crypto ctxA a nBlockHeight minProtocol fOnlyActive mn = true →
    ranked crypto ctxA a nBlockHeight minProtocol fOnlyActive mn' = true → mn.vin.prevout ≠ mn'.vin.prevout →
    score crypto ctxA a nBlockHeight mn ≠ score crypto ctxA a nBlockHeight mn'
  /-- The block hashes that the nodes know order the entries alike. -/
  sameOrder : ∀ mn ∈ a.man.vMasternodes, ∀ mn' ∈ a.man.vMasternodes,
    ranked crypto ctxA a nBlockHeight minProtocol fOnlyActive mn = true →
    ranked crypto ctxA a nBlockHeight minProtocol fOnlyActive mn' = true →
    score crypto ctxA a nBlockHeight mn < score crypto ctxA a nBlockHeight mn' →
    score crypto ctxB b nBlockHeight mn < score crypto ctxB b nBlockHeight mn'
  youngBelowA : YoungBelow crypto nBlockHeight minProtocol fOnlyActive ctxA a
  youngBelowB : YoungBelow crypto nBlockHeight minProtocol fOnlyActive ctxB b

end Statements

section OneNode

variable (ctx : MasternodeManContext) (s : RankState) (nBlockHeight minProtocol : Int) (fOnlyActive : Bool)

theorem mem_scored :
    e ∈ scored crypto ctx s nBlockHeight test ↔
      ∃ mn ∈ s.man.vMasternodes, test mn = true ∧ (score crypto ctx s nBlockHeight mn, mn.vin) = e := by
  simp only [scored, List.mem_map, List.mem_filter, and_assoc]

theorem scored_prevouts (test : CMasternode → Bool) :
    (scored crypto ctx s nBlockHeight test).map prevoutOf =
      (s.man.vMasternodes.filter test).map fun mn => mn.vin.prevout := by
  simp only [scored, List.map_map]
  rfl

variable {s} (unique : s.man.prevouts.Nodup)

include unique

theorem scored_unique (test : CMasternode → Bool) : ((scored crypto ctx s nBlockHeight test).map prevoutOf).Nodup := by
  rw [scored_prevouts]
  exact unique.sublist (List.filter_sublist.map _)

theorem eq_of_prevout (first : mn ∈ s.man.vMasternodes) (second : mn' ∈ s.man.vMasternodes)
    (same : mn.vin.prevout = mn'.vin.prevout) : mn = mn' :=
  List.inj_on_of_nodup_map unique first second same

omit unique in
theorem listed_of_ranked (counted : ranked crypto ctx s nBlockHeight minProtocol fOnlyActive mn = true) :
    listed crypto ctx minProtocol fOnlyActive mn = true := by
  simp only [ranked, listed, skipsRank, skipsByRank, Bool.and_eq_true, Bool.not_eq_true', Bool.or_eq_false_iff] at counted ⊢
  exact ⟨counted.2.1.1, counted.2.2⟩

omit unique in
theorem tooYoung_of_not_ranked (counted : ranked crypto ctx s nBlockHeight minProtocol fOnlyActive mn = true)
    (inside : listed crypto ctx minProtocol fOnlyActive young = true)
    (outside : ranked crypto ctx s nBlockHeight minProtocol fOnlyActive young = false) : tooYoung ctx young = true := by
  simp only [ranked, listed, skipsRank, skipsByRank, Bool.and_eq_true, Bool.and_eq_false_iff] at counted inside outside
  simp_all

omit unique in
theorem ranked_subset_listed :
    rankedScores crypto ctx s nBlockHeight minProtocol fOnlyActive ⊆ listedScores crypto ctx s nBlockHeight minProtocol fOnlyActive := by
  intro e member
  obtain ⟨mn, inside, counted, same⟩ := (mem_scored crypto ctx s nBlockHeight).mp member
  exact (mem_scored crypto ctx s nBlockHeight).mpr
    ⟨mn, inside, listed_of_ranked crypto ctx nBlockHeight minProtocol fOnlyActive counted, same⟩

omit unique in
theorem strict_iff_noTies (test : CMasternode → Bool) :
    Strict Prod.fst prevoutOf (scored crypto ctx s nBlockHeight test) ↔
      ∀ mn ∈ s.man.vMasternodes, ∀ mn' ∈ s.man.vMasternodes, test mn = true → test mn' = true →
        mn.vin.prevout ≠ mn'.vin.prevout → score crypto ctx s nBlockHeight mn ≠ score crypto ctx s nBlockHeight mn' := by
  constructor
  · intro strict mn inside mn' inside' counted counted' different
    exact strict _ ((mem_scored crypto ctx s nBlockHeight).mpr ⟨mn, inside, counted, rfl⟩) _
      ((mem_scored crypto ctx s nBlockHeight).mpr ⟨mn', inside', counted', rfl⟩) different
  · intro noTies e member e' member' different
    obtain ⟨mn, inside, counted, rfl⟩ := (mem_scored crypto ctx s nBlockHeight).mp member
    obtain ⟨mn', inside', counted', rfl⟩ := (mem_scored crypto ctx s nBlockHeight).mp member'
    exact noTies mn inside mn' inside' counted counted' different

theorem foundByRank_iff (sorts : SortsByScore sort) :
    FoundByRank crypto nBlockHeight minProtocol fOnlyActive sort ctx s ↔
      ∀ e ∈ rankedScores crypto ctx s nBlockHeight minProtocol fOnlyActive,
        place prevoutOf (sort (rankedScores crypto ctx s nBlockHeight minProtocol fOnlyActive)) (prevoutOf e) =
          place prevoutOf (sort (listedScores crypto ctx s nBlockHeight minProtocol fOnlyActive)) (prevoutOf e) := by
  have byRank := getMasternodeByRank_iff crypto ctx s nBlockHeight minProtocol fOnlyActive sorts
  have rank := getMasternodeRank_eq crypto ctx s nBlockHeight minProtocol fOnlyActive sorts
  have ranking := sorts (rankedScores crypto ctx s nBlockHeight minProtocol fOnlyActive)
  have listing := sorts (listedScores crypto ctx s nBlockHeight minProtocol fOnlyActive)
  have listedUnique := listing.unique (scored_unique crypto ctx nBlockHeight unique (listed crypto ctx minProtocol fOnlyActive))
  constructor
  · intro found e member
    have rankOf := rank e.2
    rw [show e.2.prevout = prevoutOf e from rfl, place?_of_mem (ranking.mem_iff.mpr member), Option.elim_some] at rankOf
    have there := (byRank _ _).mp (found e.2 _ rankOf (by omega))
    obtain ⟨e', at_, same⟩ := Option.map_eq_some_iff.mp there
    obtain ⟨bound, at_⟩ := List.getElem?_eq_some_iff.mp at_
    have places := place_getElem listedUnique bound
    rw [at_, same] at places
    exact places.symm
  · intro same vin r rankOf positive
    rw [rank vin] at rankOf
    cases isPlace : place? prevoutOf (sort (rankedScores crypto ctx s nBlockHeight minProtocol fOnlyActive)) vin.prevout with
    | none =>
      rw [isPlace, Option.elim_none] at rankOf
      omega
    | some i =>
      have known : (place? prevoutOf (sort (rankedScores crypto ctx s nBlockHeight minProtocol fOnlyActive)) vin.prevout).isSome := by
        rw [isPlace]
        rfl
      obtain ⟨e, member, prevout⟩ := List.mem_map.mp (place?_isSome.mp known)
      rw [← prevout, place?_of_mem member] at isPlace
      have place := Option.some.inj isPlace
      have member := ranking.mem_iff.mp member
      rw [same e member] at place
      have there := getElem?_place listedUnique
        (listing.mem_iff.mpr (ranked_subset_listed crypto ctx nBlockHeight minProtocol fOnlyActive member))
      rw [place] at there
      have isRank : r = (i : Int) + 1 := by
        rw [← rankOf, ← prevout, place?_of_mem (ranking.mem_iff.mpr member), same e member, place, Option.elim_some]
      rw [isRank]
      exact (byRank i vin.prevout).mpr (by rw [there, Option.map_some, prevout])

end OneNode

theorem SortsByScore.update (sorts : SortsByScore sort) (ranking : IsRanking Prod.fst l s) :
    SortsByScore (Function.update sort l s) := by
  intro l'
  by_cases same : l' = l
  · rw [same, Function.update_self]
    exact ranking
  · rw [Function.update_of_ne same]
    exact sorts l'

def stableSort (l : List (Int × CTxIn)) : List (Int × CTxIn) := l.insertionSort fun e e' => e'.1 ≤ e.1

theorem stableSort_sorts : SortsByScore stableSort := IsRanking.insertionSort Prod.fst

theorem foundByRank_iff_youngBelow (ctx : MasternodeManContext) (unique : s.man.prevouts.Nodup) (nBlockHeight minProtocol : Int)
    (fOnlyActive : Bool) (strict : Strict Prod.fst prevoutOf (rankedScores crypto ctx s nBlockHeight minProtocol fOnlyActive)) :
    (∀ sort, SortsByScore sort → FoundByRank crypto nBlockHeight minProtocol fOnlyActive sort ctx s) ↔
      YoungBelow crypto nBlockHeight minProtocol fOnlyActive ctx s := by
  have part := place_part_iff Prod.fst (scored_unique crypto ctx nBlockHeight unique _)
    (scored_unique crypto ctx nBlockHeight unique _) (ranked_subset_listed crypto ctx nBlockHeight minProtocol fOnlyActive)
  constructor
  · intro found mn inside young insideYoung counted countedYoung tooYoung_
    have outside : (score crypto ctx s nBlockHeight young, young.vin) ∉ rankedScores crypto ctx s nBlockHeight minProtocol fOnlyActive := by
      intro member
      obtain ⟨mn', inside', counted', same⟩ := (mem_scored crypto ctx s nBlockHeight).mp member
      obtain rfl := eq_of_prevout unique inside' insideYoung (congrArg (fun e : Int × CTxIn => e.2.prevout) same)
      simp [ranked, skipsRank, tooYoung_] at counted'
    have memberYoung := (mem_scored crypto ctx s nBlockHeight).mpr ⟨young, insideYoung, countedYoung, rfl⟩
    have different : listedScores crypto ctx s nBlockHeight minProtocol fOnlyActive ≠
        rankedScores crypto ctx s nBlockHeight minProtocol fOnlyActive := fun same => outside (same ▸ memberYoung)
    -- The two lists differ, so a sort is free in what it makes of each of them.
    have agree := part.mp fun t u ranking listing e member => by
      have sorts := (stableSort_sorts.update ranking).update listing
      have places := (foundByRank_iff crypto ctx nBlockHeight minProtocol fOnlyActive unique sorts).mp (found _ sorts) e member
      rwa [Function.update_of_ne different.symm, Function.update_self, Function.update_self] at places
    exact agree.2 _ ((mem_scored crypto ctx s nBlockHeight).mpr ⟨mn, inside, counted, rfl⟩) _ memberYoung outside
  · intro below sort sorts
    apply (foundByRank_iff crypto ctx nBlockHeight minProtocol fOnlyActive unique sorts).mpr
    refine part.mpr ⟨strict, ?_⟩ _ _ (sorts _) (sorts _)
    intro e member e' member' outside
    obtain ⟨mn, inside, counted, rfl⟩ := (mem_scored crypto ctx s nBlockHeight).mp member
    obtain ⟨young, insideYoung, countedYoung, rfl⟩ := (mem_scored crypto ctx s nBlockHeight).mp member'
    apply below mn inside young insideYoung counted countedYoung
    apply tooYoung_of_not_ranked crypto ctx nBlockHeight minProtocol fOnlyActive counted countedYoung
    rw [Bool.eq_false_iff]
    exact fun countedYoung => outside ((mem_scored crypto ctx s nBlockHeight).mpr ⟨young, insideYoung, countedYoung, rfl⟩)

section TwoNodes

variable {ctxA ctxB : MasternodeManContext} {a b : RankState} (uniqueA : a.man.prevouts.Nodup) (uniqueB : b.man.prevouts.Nodup)
  (perm : a.man.vMasternodes.Perm b.man.vMasternodes) (nBlockHeight minProtocol : Int) (fOnlyActive : Bool)

include perm uniqueA in
theorem sameKeys_iff (testA testB : CMasternode → Bool) :
    (∀ k, k ∈ (scored crypto ctxA a nBlockHeight testA).map prevoutOf ↔
        k ∈ (scored crypto ctxB b nBlockHeight testB).map prevoutOf) ↔
      ∀ mn ∈ a.man.vMasternodes, (testA mn = true ↔ testB mn = true) := by
  simp only [scored_prevouts, List.mem_map, List.mem_filter]
  constructor
  · intro keys mn inside
    constructor
    · intro counted
      obtain ⟨mn', ⟨inside', counted'⟩, same⟩ := (keys mn.vin.prevout).mp ⟨mn, ⟨inside, counted⟩, rfl⟩
      obtain rfl := eq_of_prevout uniqueA (perm.mem_iff.mpr inside') inside same
      exact counted'
    · intro counted
      obtain ⟨mn', ⟨inside', counted'⟩, same⟩ := (keys mn.vin.prevout).mpr ⟨mn, ⟨perm.mem_iff.mp inside, counted⟩, rfl⟩
      obtain rfl := eq_of_prevout uniqueA inside' inside same
      exact counted'
  · intro tests k
    constructor
    · rintro ⟨mn, ⟨inside, counted⟩, same⟩
      exact ⟨mn, ⟨perm.mem_iff.mp inside, (tests mn inside).mp counted⟩, same⟩
    · rintro ⟨mn, ⟨inside, counted⟩, same⟩
      have inside := perm.mem_iff.mpr inside
      exact ⟨mn, ⟨inside, (tests mn inside).mpr counted⟩, same⟩

include perm uniqueA in
theorem sameOrder_iff (tests : ∀ mn ∈ a.man.vMasternodes, (testA mn = true ↔ testB mn = true)) :
    SameOrder Prod.fst prevoutOf (scored crypto ctxA a nBlockHeight testA) (scored crypto ctxB b nBlockHeight testB) ↔
      ∀ mn ∈ a.man.vMasternodes, ∀ mn' ∈ a.man.vMasternodes, testA mn = true → testA mn' = true →
        score crypto ctxA a nBlockHeight mn < score crypto ctxA a nBlockHeight mn' →
        score crypto ctxB b nBlockHeight mn < score crypto ctxB b nBlockHeight mn' := by
  constructor
  · intro order mn inside mn' inside' counted counted' less
    exact order _ ((mem_scored crypto ctxA a nBlockHeight).mpr ⟨mn, inside, counted, rfl⟩)
      _ ((mem_scored crypto ctxA a nBlockHeight).mpr ⟨mn', inside', counted', rfl⟩)
      _ ((mem_scored crypto ctxB b nBlockHeight).mpr ⟨mn, perm.mem_iff.mp inside, (tests mn inside).mp counted, rfl⟩)
      _ ((mem_scored crypto ctxB b nBlockHeight).mpr ⟨mn', perm.mem_iff.mp inside', (tests mn' inside').mp counted', rfl⟩)
      rfl rfl less
  · intro order e member e' member' f fMember f' fMember' same same' less
    obtain ⟨mn, inside, counted, rfl⟩ := (mem_scored crypto ctxA a nBlockHeight).mp member
    obtain ⟨mn', inside', counted', rfl⟩ := (mem_scored crypto ctxA a nBlockHeight).mp member'
    obtain ⟨mnB, insideB, _, rfl⟩ := (mem_scored crypto ctxB b nBlockHeight).mp fMember
    obtain ⟨mnB', insideB', _, rfl⟩ := (mem_scored crypto ctxB b nBlockHeight).mp fMember'
    obtain rfl := eq_of_prevout uniqueA (perm.mem_iff.mpr insideB) inside same
    obtain rfl := eq_of_prevout uniqueA (perm.mem_iff.mpr insideB') inside' same'
    exact order mnB inside mnB' inside' counted counted' less

theorem sameRanked_iff (view : SameView ctxA ctxB) :
    (∀ mn ∈ a.man.vMasternodes, (ranked crypto ctxA a nBlockHeight minProtocol fOnlyActive mn = true ↔
        ranked crypto ctxB b nBlockHeight minProtocol fOnlyActive mn = true)) ↔
      ∀ mn ∈ a.man.vMasternodes, minProtocol ≤ mn.protocolVersion → tooYoung ctxA mn = false →
        ((blockHash ctxA a nBlockHeight).isSome ∧ isActive crypto ctxA fOnlyActive mn ↔
          (blockHash ctxB b nBlockHeight).isSome ∧ isActive crypto ctxB fOnlyActive mn) := by
  have sameAge : ∀ mn, tooYoung ctxB mn = tooYoung ctxA mn := by
    intro mn
    unfold tooYoung
    rw [view.adjustedTime, view.sporks]
  apply forall₂_congr
  intro mn _
  simp only [ranked, skipsRank, sameAge, Bool.and_eq_true, Bool.not_eq_true', Bool.or_eq_false_iff, decide_eq_false_iff_not,
    not_lt]
  tauto

theorem sameRanks_iff :
    (∀ sortA sortB, SortsByScore sortA → SortsByScore sortB →
        ∀ vin, (getMasternodeRank crypto sortA ctxA a vin nBlockHeight minProtocol fOnlyActive).1 =
          (getMasternodeRank crypto sortB ctxB b vin nBlockHeight minProtocol fOnlyActive).1) ↔
      ∀ s t, IsRanking Prod.fst (rankedScores crypto ctxA a nBlockHeight minProtocol fOnlyActive) s →
        IsRanking Prod.fst (rankedScores crypto ctxB b nBlockHeight minProtocol fOnlyActive) t →
        ∀ k, place? prevoutOf s k = place? prevoutOf t k := by
  constructor
  · intro agree s t rankingA rankingB k
    have sortsA := stableSort_sorts.update rankingA
    have sortsB := stableSort_sorts.update rankingB
    have ranks := agree _ _ sortsA sortsB { prevout := k }
    rw [getMasternodeRank_eq crypto ctxA a nBlockHeight minProtocol fOnlyActive sortsA,
      getMasternodeRank_eq crypto ctxB b nBlockHeight minProtocol fOnlyActive sortsB, Function.update_self,
      Function.update_self] at ranks
    dsimp only at ranks
    -- The rank is -1 or positive, and tells the place.
    cases first : place? prevoutOf s k with
    | none =>
      cases second : place? prevoutOf t k with
      | none => rfl
      | some j => rw [first, second, Option.elim_none, Option.elim_some] at ranks; omega
    | some i =>
      cases second : place? prevoutOf t k with
      | none => rw [first, second, Option.elim_none, Option.elim_some] at ranks; omega
      | some j =>
        rw [first, second, Option.elim_some, Option.elim_some] at ranks
        exact congrArg some (by omega)
  · intro places sortA sortB sortsA sortsB vin
    rw [getMasternodeRank_eq crypto ctxA a nBlockHeight minProtocol fOnlyActive sortsA,
      getMasternodeRank_eq crypto ctxB b nBlockHeight minProtocol fOnlyActive sortsB, places _ _ (sortsA _) (sortsB _)]

include uniqueA uniqueB perm in
theorem agrees_iff_determined (view : SameView ctxA ctxB) :
    RankingAgrees crypto ctxA a ctxB b nBlockHeight minProtocol fOnlyActive ↔
      RankingDetermined crypto ctxA a ctxB b nBlockHeight minProtocol fOnlyActive := by
  have rankedUniqueA := scored_unique crypto ctxA nBlockHeight uniqueA (ranked crypto ctxA a nBlockHeight minProtocol fOnlyActive)
  have rankedUniqueB := scored_unique crypto ctxB nBlockHeight uniqueB (ranked crypto ctxB b nBlockHeight minProtocol fOnlyActive)
  have places := place?_eq_iff Prod.fst rankedUniqueA rankedUniqueB
  constructor
  · intro agrees
    have same := (sameRanks_iff crypto nBlockHeight minProtocol fOnlyActive).mp fun sortA sortB sortsA sortsB => (agrees sortA sortB sortsA sortsB).1
    obtain ⟨keys, strict, order⟩ := places.mp same
    have strictB := ((place?_eq_iff Prod.fst rankedUniqueB rankedUniqueA).mp fun t s listing ranking k =>
      (same s t ranking listing k).symm).2.1
    have tests := (sameKeys_iff crypto uniqueA perm nBlockHeight _ _).mp keys
    exact {
      sameActive := (sameRanked_iff crypto nBlockHeight minProtocol fOnlyActive view).mp tests
      noTies := (strict_iff_noTies crypto ctxA nBlockHeight _).mp strict
      sameOrder := (sameOrder_iff crypto uniqueA perm nBlockHeight tests).mp order
      youngBelowA := (foundByRank_iff_youngBelow crypto ctxA uniqueA nBlockHeight minProtocol fOnlyActive strict).mp
        fun sort sorts => (agrees sort stableSort sorts stableSort_sorts).2.1
      youngBelowB := (foundByRank_iff_youngBelow crypto ctxB uniqueB nBlockHeight minProtocol fOnlyActive strictB).mp
        fun sort sorts => (agrees stableSort sort stableSort_sorts sorts).2.2 }
  · intro determined sortA sortB sortsA sortsB
    have tests := (sameRanked_iff crypto nBlockHeight minProtocol fOnlyActive view).mpr determined.sameActive
    have strict := (strict_iff_noTies crypto ctxA nBlockHeight _).mpr determined.noTies
    have same := places.mpr ⟨(sameKeys_iff crypto uniqueA perm nBlockHeight _ _).mpr tests, strict,
      (sameOrder_iff crypto uniqueA perm nBlockHeight tests).mpr determined.sameOrder⟩
    have strictB := ((place?_eq_iff Prod.fst rankedUniqueB rankedUniqueA).mp fun t s listing ranking k =>
      (same s t ranking listing k).symm).2.1
    exact ⟨(sameRanks_iff crypto nBlockHeight minProtocol fOnlyActive).mpr same sortA sortB sortsA sortsB,
      (foundByRank_iff_youngBelow crypto ctxA uniqueA nBlockHeight minProtocol fOnlyActive strict).mpr determined.youngBelowA
        sortA sortsA,
      (foundByRank_iff_youngBelow crypto ctxB uniqueB nBlockHeight minProtocol fOnlyActive strictB).mpr determined.youngBelowB
        sortB sortsB⟩

end TwoNodes

variable (sort : List (Int × CTxIn) → List (Int × CTxIn))

theorem step_unique (unique : s.man.prevouts.Nodup) (d : MasternodeManContext × Op) :
    (step crypto sort s d).man.prevouts.Nodup := by
  obtain ⟨ctx, op⟩ := d
  cases op with
  | list op => exact (CMasternodeMan.step_grows crypto.toMasternodeCrypto (ctx, op)).nodup unique
  | getBlockHash nBlockHeight => exact unique
  | getMasternodeRank vin nBlockHeight minProtocol fOnlyActive =>
    dsimp only [step, getMasternodeRank]
    split
    · exact unique
    · unfold CMasternodeMan.prevouts
      rw [scanScores_prevouts]
      exact unique
  | getMasternodeByRank nRank nBlockHeight minProtocol fOnlyActive =>
    dsimp only [step, getMasternodeByRank]
    unfold CMasternodeMan.prevouts
    rw [scanScores_prevouts]
    exact unique

theorem run_unique (history : List (MasternodeManContext × Op)) : (run crypto sort history).man.prevouts.Nodup :=
  List.foldlRecOn (motive := fun s : RankState => s.man.prevouts.Nodup) history (step crypto sort) List.nodup_nil
    fun _ unique d _ => step_unique crypto sort unique d

section Result

variable (sortA sortB : List (Int × CTxIn) → List (Int × CTxIn)) (historyA historyB : List (MasternodeManContext × Op))
  {ctxA ctxB : MasternodeManContext} (view : SameView ctxA ctxB)
  (perm : (run crypto sortA historyA).man.vMasternodes.Perm (run crypto sortB historyB).man.vMasternodes)
  (nBlockHeight minProtocol : Int) (fOnlyActive : Bool)

include view perm

/-- After any histories of the two nodes. -/
theorem ranking_agrees_iff :
    RankingAgrees crypto ctxA (run crypto sortA historyA) ctxB (run crypto sortB historyB) nBlockHeight minProtocol fOnlyActive ↔
      RankingDetermined crypto ctxA (run crypto sortA historyA) ctxB (run crypto sortB historyB) nBlockHeight minProtocol fOnlyActive :=
  agrees_iff_determined crypto (run_unique crypto sortA historyA) (run_unique crypto sortB historyB) perm nBlockHeight minProtocol
    fOnlyActive view

end Result

def rankCrypto : ScoreCrypto where
  toMasternodeCrypto := { CMasternodeMan.openCrypto with broadcastHash := fun sigTime _ => BitVec.ofInt 256 sigTime }
  hashBlock _ := 0
  hashBlockAux hash aux := if hash = 19 then aux else 1000 - aux

def forkChain (hash : uint256) : CChain where
  vChain := (List.range 21).map fun n => { hash := if n = 19 then hash else BitVec.ofNat 256 n, nHeight := n }
  heights nHeight pindex found := by
    simp only [List.getElem?_map, Option.map_eq_some_iff] at found
    obtain ⟨n, isHeight, rfl⟩ := found
    simpa using (List.getElem?_eq_some_iff.mp isHeight).2.symm

def forkContext (hash : uint256) : MasternodeManContext := { CMasternodeMan.doubleContext with chainActive := forkChain hash }

def rankBroadcast (n : Nat) : CMasternode := { CMasternodeMan.doubleBroadcast n with sigTime := 9000 + n }

def askedHistory (hash : uint256) : List (MasternodeManContext × Op) :=
  [(forkContext hash, .list (.mnb (rankBroadcast 0))), (forkContext hash, .list (.mnb (rankBroadcast 1))),
    (forkContext hash, .getBlockHash 20)]

def quietHistory : List (MasternodeManContext × Op) :=
  [(forkContext 19, .list (.mnb (rankBroadcast 1))), (forkContext 19, .list (.mnb (rankBroadcast 0)))]

theorem askedHistory_list (hash : uint256) (either : hash = 19 ∨ hash = 190) :
    (run rankCrypto stableSort (askedHistory hash)).man.vMasternodes = [rankBroadcast 0, rankBroadcast 1] := by
  obtain rfl | rfl := either <;> decide

theorem quietHistory_list : (run rankCrypto stableSort quietHistory).man.vMasternodes = [rankBroadcast 1, rankBroadcast 0] := by decide

/-- With the block unchanged, the order in the lists and an earlier query make no difference. -/
theorem same_chain_ranked_alike :
    RankingAgrees rankCrypto (forkContext 19) (run rankCrypto stableSort (askedHistory 19)) (forkContext 19)
        (run rankCrypto stableSort quietHistory) 20 70000 true ∧
      (getMasternodeRank rankCrypto stableSort (forkContext 19) (run rankCrypto stableSort quietHistory) (rankBroadcast 0).vin
        20 70000 true).1 = 2 := by
  have perm : (run rankCrypto stableSort (askedHistory 19)).man.vMasternodes.Perm
      (run rankCrypto stableSort quietHistory).man.vMasternodes := by
    rw [askedHistory_list 19 (Or.inl rfl), quietHistory_list]
    exact List.Perm.swap _ _ _
  refine ⟨(ranking_agrees_iff rankCrypto stableSort stableSort (askedHistory 19) quietHistory ⟨rfl, rfl, rfl⟩ perm
    20 70000 true).mpr ⟨?_, ?_, ?_, ?_, ?_⟩, by decide⟩
  · decide
  · decide
  · decide
  · unfold YoungBelow
    decide
  · unfold YoungBelow
    decide

/-- After a reorganisation, a node that had asked before goes on with the block of the old chain. -/
theorem cached_block_ranked_otherwise :
    (run rankCrypto stableSort (askedHistory 190)).man.vMasternodes.Perm (run rankCrypto stableSort quietHistory).man.vMasternodes ∧
      ¬RankingAgrees rankCrypto (forkContext 19) (run rankCrypto stableSort (askedHistory 190)) (forkContext 19)
        (run rankCrypto stableSort quietHistory) 20 70000 true := by
  refine ⟨?_, fun agrees => ?_⟩
  · rw [askedHistory_list 190 (Or.inr rfl), quietHistory_list]
    exact List.Perm.swap _ _ _
  · have same := (agrees stableSort stableSort stableSort_sorts stableSort_sorts).1 (rankBroadcast 0).vin
    exact absurd same (by decide)

end Ranks

end SchillingCoin
