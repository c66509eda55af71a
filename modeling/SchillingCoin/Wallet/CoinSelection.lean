import Mathlib.Algebra.BigOperators.Group.Finset.Basic
import SchillingCoin.Wallet.AvailableCoins

/-!
The choice of the coins that pay an amount, after `ApproximateBestSubset`, `SelectCoinsMinConf` and `SelectCoins` of
`wallet.cpp`.
-/

namespace SchillingCoin

open Finset

namespace BestSubset

/-- The variables of `ApproximateBestSubset`; a vector of marks is the set of the marked positions. -/
structure Trial where
  vfIncluded : Finset Nat := ∅
  nTotal : Int := 0
  fReachedTarget : Bool := false
  vfBest : Finset Nat
  nBest : Int

variable (value : Nat → Int) (nTargetValue : Int)

variable (t : Trial) (i : Nat)

def reach : Trial :=
  let t := if t.nTotal < t.nBest then { t with nBest := t.nTotal, vfBest := t.vfIncluded } else t
  { t with fReachedTarget := true, nTotal := t.nTotal - value i, vfIncluded := t.vfIncluded.erase i }

def take : Trial :=
  let t := { t with nTotal := t.nTotal + value i, vfIncluded := insert i t.vfIncluded }
  if t.nTotal ≥ nTargetValue then reach value t i else t

def pass (wanted : Trial → Nat → Bool) (positions : List Nat) (t : Trial) : Trial :=
  positions.foldl (fun t i => if wanted t i then take value nTargetValue t i else t) t

/-- Random positions first, then the positions that are left. -/
def trial (size : Nat) (randbool : Nat → Bool) (t : Trial) : Trial :=
  let t := { t with vfIncluded := ∅, nTotal := 0, fReachedTarget := false }
  let t := pass value nTargetValue (fun _ i => randbool i) (List.range size) t
  if t.fReachedTarget then t else pass value nTargetValue (fun t i => decide (i ∉ t.vfIncluded)) (List.range size) t

def trials (size : Nat) (randbool : Nat → Nat → Bool) : Nat → Trial → Trial
  | 0, t => t
  | left + 1, t =>
    if t.nBest ≠ nTargetValue then trials size randbool left (trial value nTargetValue size (randbool left) t) else t

def approximateBestSubset (size : Nat) (nTotalLower : Int) (randbool : Nat → Nat → Bool) (iterations : Nat) : Trial :=
  trials value nTargetValue size randbool iterations { vfBest := range size, nBest := nTotalLower }

structure Tallied (size : Nat) (t : Trial) : Prop where
  included : t.vfIncluded ⊆ range size
  total : t.nTotal = ∑ i ∈ t.vfIncluded, value i
  best : t.vfBest ⊆ range size
  bestTotal : t.nBest = ∑ i ∈ t.vfBest, value i
  reaches : nTargetValue ≤ t.nBest

variable {value nTargetValue} {size : Nat} {t : Trial}

theorem Tallied.reach (tallied : Tallied value nTargetValue size t) {i : Nat} (marked : i ∈ t.vfIncluded)
    (enough : nTargetValue ≤ t.nTotal) : Tallied value nTargetValue size (reach value t i) := by
  have rest : t.nTotal - value i = ∑ j ∈ t.vfIncluded.erase i, value j := by
    rw [tallied.total, ← add_sum_erase t.vfIncluded value marked]
    omega
  have inside : t.vfIncluded.erase i ⊆ range size := (erase_subset i t.vfIncluded).trans tallied.included
  unfold BestSubset.reach
  by_cases better : t.nTotal < t.nBest
  · rw [if_pos better]
    exact ⟨inside, rest, tallied.included, tallied.total, enough⟩
  · rw [if_neg better]
    exact ⟨inside, rest, tallied.best, tallied.bestTotal, tallied.reaches⟩

theorem Tallied.take (tallied : Tallied value nTargetValue size t) {i : Nat} (inside : i < size) (unmarked : i ∉ t.vfIncluded) :
    Tallied value nTargetValue size (take value nTargetValue t i) := by
  have added : Tallied value nTargetValue size { t with nTotal := t.nTotal + value i, vfIncluded := insert i t.vfIncluded } := by
    refine ⟨insert_subset (mem_range.mpr inside) tallied.included, ?_, tallied.best, tallied.bestTotal, tallied.reaches⟩
    simp only [sum_insert unmarked, tallied.total]
    omega
  unfold BestSubset.take
  simp only
  split
  · rename_i enough
    exact added.reach (mem_insert_self i _) enough
  · exact added

theorem take_included : (take value nTargetValue t i).vfIncluded ⊆ insert i t.vfIncluded := by
  unfold take reach
  simp only
  split
  · split
    · exact erase_subset i _
    · exact erase_subset i _
  · exact Subset.refl _

theorem firstPass_tallied (randbool : Nat → Bool) (tallied : Tallied value nTargetValue size t) (start : t.vfIncluded = ∅) {k : Nat}
    (inside : k ≤ size) :
    Tallied value nTargetValue size (pass value nTargetValue (fun _ i => randbool i) (List.range k) t) ∧
      (pass value nTargetValue (fun _ i => randbool i) (List.range k) t).vfIncluded ⊆ range k := by
  induction k with
  | zero => exact ⟨tallied, by simp [pass, start]⟩
  | succ k ih =>
    obtain ⟨before, marks⟩ := ih (by omega)
    have unmarked : k ∉ (pass value nTargetValue (fun _ i => randbool i) (List.range k) t).vfIncluded := by
      intro marked
      have less := mem_range.mp (marks marked)
      omega
    have next : pass value nTargetValue (fun _ i => randbool i) (List.range (k + 1)) t =
        if randbool k then take value nTargetValue (pass value nTargetValue (fun _ i => randbool i) (List.range k) t) k
        else pass value nTargetValue (fun _ i => randbool i) (List.range k) t := by
      rw [pass, List.range_succ, List.foldl_append]
      rfl
    rw [next]
    split
    · refine ⟨before.take (by omega) unmarked, (take_included k).trans ?_⟩
      rw [range_add_one]
      exact insert_subset_insert k marks
    · exact ⟨before, marks.trans (range_mono (by omega))⟩

theorem secondPass_tallied (positions : List Nat) (inside : ∀ i ∈ positions, i < size) (tallied : Tallied value nTargetValue size t) :
    Tallied value nTargetValue size (pass value nTargetValue (fun t i => decide (i ∉ t.vfIncluded)) positions t) := by
  unfold pass
  induction positions generalizing t with
  | nil => exact tallied
  | cons i rest ih =>
    rw [List.foldl_cons]
    apply ih (fun j member => inside j (List.mem_cons_of_mem i member))
    by_cases unmarked : i ∉ t.vfIncluded
    · rw [if_pos (decide_eq_true unmarked)]
      exact tallied.take (inside i (by simp)) unmarked
    · rw [if_neg (by simpa using unmarked)]
      exact tallied

theorem Tallied.trial (tallied : Tallied value nTargetValue size t) (randbool : Nat → Bool) :
    Tallied value nTargetValue size (trial value nTargetValue size randbool t) := by
  have cleared : Tallied value nTargetValue size { t with vfIncluded := ∅, nTotal := 0, fReachedTarget := false } :=
    ⟨empty_subset _, sum_empty.symm, tallied.best, tallied.bestTotal, tallied.reaches⟩
  have first := (firstPass_tallied randbool cleared rfl le_rfl).1
  unfold BestSubset.trial
  simp only
  split
  · exact first
  · exact secondPass_tallied _ (fun i member => List.mem_range.mp member) first

theorem Tallied.trials (tallied : Tallied value nTargetValue size t) (randbool : Nat → Nat → Bool) (iterations : Nat) :
    Tallied value nTargetValue size (trials value nTargetValue size randbool iterations t) := by
  induction iterations generalizing t with
  | zero => exact tallied
  | succ left ih =>
    unfold BestSubset.trials
    split
    · exact ih (tallied.trial (randbool left))
    · exact tallied

theorem approximateBestSubset_tallied (total : nTotalLower = ∑ i ∈ range size, value i) (enough : nTargetValue ≤ nTotalLower)
    (randbool : Nat → Nat → Bool) (iterations : Nat) :
    Tallied value nTargetValue size (approximateBestSubset value nTargetValue size nTotalLower randbool iterations) :=
  Tallied.trials ⟨empty_subset _, sum_empty.symm, Subset.refl _, total, enough⟩ randbool iterations

end BestSubset

def CENT : Int := 1000000

structure Selection where
  setCoins : Finset Coin
  nValueRet : Int

variable (coins : List (Int × Coin)) (s : Finset Nat)

def Selection.ofCoins : Selection :=
  { setCoins := (coins.map Prod.snd).toFinset, nValueRet := (coins.map Prod.fst).sum }

def CWallet.COutput.priced (out : CWallet.COutput) : Int × Coin := (out.coin.txOut.nValue, out.coin)

def marked (coins : List (Int × Coin)) : List (Int × Coin) :=
  (coins.zipIdx.filter fun p => decide (p.2 ∈ s)).map Prod.fst

def valueAt (i : Nat) : Int := (coins[i]?.map Prod.fst).getD 0

theorem marked_sublist (coins : List (Int × Coin)) : (marked s coins).Sublist coins := by
  have every := (List.filter_sublist (l := coins.zipIdx) (p := fun p => decide (p.2 ∈ s))).map Prod.fst
  rwa [List.zipIdx_map_fst] at every

theorem valueAt_concat (coin : Int × Coin) (inside : i ∈ range coins.length) :
    valueAt (coins ++ [coin]) i = valueAt coins i := by
  unfold valueAt
  rw [List.getElem?_append_left (mem_range.mp inside)]

theorem valueAt_last (coin : Int × Coin) : valueAt (coins ++ [coin]) coins.length = coin.1 := by
  simp [valueAt]

theorem sum_values : (coins.map Prod.fst).sum = ∑ i ∈ range coins.length, valueAt coins i := by
  induction coins using List.reverseRecOn with
  | nil => rfl
  | append_singleton coins coin ih =>
    rw [List.length_append, List.length_singleton, sum_range_succ, valueAt_last,
      sum_congr rfl fun i inside => valueAt_concat coins coin inside, ← ih]
    simp

theorem sum_marked (coins : List (Int × Coin)) :
    ((marked s coins).map Prod.fst).sum = ∑ i ∈ (range coins.length).filter (· ∈ s), valueAt coins i := by
  induction coins using List.reverseRecOn with
  | nil => rfl
  | append_singleton coins coin ih =>
    have last : marked s (coins ++ [coin]) = marked s coins ++ if coins.length ∈ s then [coin] else [] := by
      unfold marked
      rw [List.zipIdx_append, List.filter_append, List.map_append]
      congr 1
      by_cases here : coins.length ∈ s
      · simp [here]
      · simp [here]
    have before : ∑ i ∈ (range coins.length).filter (· ∈ s), valueAt (coins ++ [coin]) i =
        ∑ i ∈ (range coins.length).filter (· ∈ s), valueAt coins i :=
      sum_congr rfl fun i inside => valueAt_concat coins coin (mem_filter.mp inside).1
    rw [last, List.map_append, List.sum_append, ih, List.length_append, List.length_singleton, range_add_one, filter_insert]
    by_cases here : coins.length ∈ s
    · rw [if_pos here, if_pos here, sum_insert (by simp), valueAt_last, before]
      simp [add_comm]
    · rw [if_neg here, if_neg here, before]
      simp

def Chosen (offered : List (Int × Coin)) (nTargetValue : Int) (sel : Selection) : Prop :=
  ∃ coins : List (Int × Coin), coins.Subperm offered ∧ sel = Selection.ofCoins coins ∧ nTargetValue ≤ (coins.map Prod.fst).sum

theorem Chosen.single (offer : coin ∈ offered) (enough : nTargetValue ≤ coin.1) :
    Chosen offered nTargetValue (Selection.ofCoins [coin]) := by
  refine ⟨[coin], ?_, rfl, ?_⟩
  · exact (List.singleton_sublist.mpr offer).subperm
  · simpa using enough

/-- The random choices of `SelectCoinsMinConf`, and the order in which the unstable sorts leave equal elements. -/
structure SelectionLuck where
  shuffle : List CWallet.COutput → List CWallet.COutput
  shuffled : ∀ coins, (shuffle coins).Perm coins
  ties : List (Int × Coin) → List (Int × Coin)
  tied : ∀ coins, (ties coins).Perm coins
  /-- For a call of `ApproximateBestSubset`, a repetition and a position. -/
  randbool : Nat → Nat → Nat → Bool

structure Scan where
  vValue : List (Int × Coin) := []
  nTotalLower : Int := 0
  coinLowestLarger : Option (Int × Coin) := none

namespace CWallet

def lessThenDenom (out1 out2 : COutput) : Bool :=
  !isDenominatedAmount out1.coin.txOut.nValue && isDenominatedAmount out2.coin.txOut.nValue

section

variable (ctx : SpendContext) (luck : SelectionLuck) (nTargetValue nConfMine nConfTheirs : Int)

def deepEnough (out : COutput) : Bool :=
  out.fSpendable && decide (out.nDepth ≥ if ctx.isFromMe out.tx.tx then nConfMine else nConfTheirs)

/-- The loop over the coins; it ends at a coin of exactly the amount. No denominated coin is looked at in the first try. -/
def scanCoins (tryDenom : Nat) : List COutput → Scan → (Int × Coin) ⊕ Scan
  | [], s => .inr s
  | out :: rest, s =>
    let coin := out.priced
    if !deepEnough ctx nConfMine nConfTheirs out then scanCoins tryDenom rest s
    else if tryDenom = 0 && isDenominatedAmount coin.1 then scanCoins tryDenom rest s
    else if coin.1 = nTargetValue then .inl coin
    else if coin.1 < nTargetValue + CENT then
      scanCoins tryDenom rest { s with vValue := s.vValue ++ [coin], nTotalLower := s.nTotalLower + coin.1 }
    else if coin.1 < (s.coinLowestLarger.map Prod.fst).getD (2 ^ 63 - 1) then
      scanCoins tryDenom rest { s with coinLowestLarger := some coin }
    else scanCoins tryDenom rest s

def approximate (vValue : List (Int × Coin)) (nTotalLower : Int) : BestSubset.Trial :=
  let found := BestSubset.approximateBestSubset (valueAt vValue) nTargetValue vValue.length nTotalLower (luck.randbool 0) 1000
  if found.nBest ≠ nTargetValue ∧ nTotalLower ≥ nTargetValue + CENT then
    BestSubset.approximateBestSubset (valueAt vValue) (nTargetValue + CENT) vValue.length nTotalLower (luck.randbool 1) 1000
  else found

/-- The best subset of the smaller coins, unless the smallest larger coin is nearer to the amount. -/
def bestSelection (s : Scan) : Selection :=
  let vValue := (luck.ties s.vValue).insertionSort fun a b => b.1 ≤ a.1
  let found := approximate luck nTargetValue vValue s.nTotalLower
  let subset := Selection.ofCoins (marked found.vfBest vValue)
  match s.coinLowestLarger with
  | none => subset
  | some larger =>
    if (found.nBest ≠ nTargetValue ∧ found.nBest < nTargetValue + CENT) ∨ larger.1 ≤ found.nBest then Selection.ofCoins [larger]
    else subset

/-- One try, with the result of the tries after it. -/
def tryCoins (tryDenom : Nat) (vCoins : List COutput) (next : Option Selection) : Option Selection :=
  match scanCoins ctx nTargetValue nConfMine nConfTheirs tryDenom vCoins {} with
  | .inl coin => some (Selection.ofCoins [coin])
  | .inr s =>
    if s.nTotalLower = nTargetValue then some (Selection.ofCoins s.vValue)
    else if s.nTotalLower < nTargetValue then
      match s.coinLowestLarger with
      | none => next
      | some larger => some (Selection.ofCoins [larger])
    else some (bestSelection luck nTargetValue s)

def selectCoinsMinConf (vCoins : List COutput) : Option Selection :=
  let vCoins := (luck.shuffle vCoins).insertionSort fun out1 out2 => lessThenDenom out2 out1 = false
  tryCoins ctx luck nTargetValue nConfMine nConfTheirs 0 vCoins
    (tryCoins ctx luck nTargetValue nConfMine nConfTheirs 1 vCoins none)

end

variable {ctx : SpendContext} {nTargetValue nConfMine nConfTheirs : Int}

structure Gathered (nTargetValue : Int) (offered left : List (Int × Coin)) (s : Scan) : Prop where
  smaller : (s.vValue ++ left).Sublist offered
  total : s.nTotalLower = (s.vValue.map Prod.fst).sum
  larger : ∀ coin, s.coinLowestLarger = some coin → coin ∈ offered ∧ nTargetValue ≤ coin.1

section

variable {offered rest : List (Int × Coin)} {s : Scan} {coin : Int × Coin}

theorem Gathered.offer (gathered : Gathered nTargetValue offered (coin :: rest) s) : coin ∈ offered :=
  gathered.smaller.subset (List.mem_append_right _ (List.mem_cons_self ..))

theorem Gathered.skip (gathered : Gathered nTargetValue offered (coin :: rest) s) : Gathered nTargetValue offered rest s :=
  ⟨((List.sublist_cons_self coin rest).append_left s.vValue).trans gathered.smaller, gathered.total, gathered.larger⟩

theorem Gathered.take (gathered : Gathered nTargetValue offered (coin :: rest) s) :
    Gathered nTargetValue offered rest { s with vValue := s.vValue ++ [coin], nTotalLower := s.nTotalLower + coin.1 } := by
  refine ⟨?_, ?_, gathered.larger⟩
  · rw [List.append_assoc]
    exact gathered.smaller
  · simp [gathered.total]

theorem Gathered.keep (gathered : Gathered nTargetValue offered (coin :: rest) s) (enough : nTargetValue ≤ coin.1) :
    Gathered nTargetValue offered rest { s with coinLowestLarger := some coin } := by
  refine ⟨gathered.skip.smaller, gathered.total, ?_⟩
  rintro _ ⟨⟩
  exact ⟨gathered.offer, enough⟩

end

def Scanned (nTargetValue : Int) (offered : List (Int × Coin)) : (Int × Coin) ⊕ Scan → Prop
  | .inl coin => coin ∈ offered ∧ coin.1 = nTargetValue
  | .inr s => Gathered nTargetValue offered [] s

theorem scanCoins_scanned (vCoins : List COutput) {s : Scan}
    (gathered : Gathered nTargetValue offered (vCoins.map COutput.priced) s) :
    Scanned nTargetValue offered (scanCoins ctx nTargetValue nConfMine nConfTheirs tryDenom vCoins s) := by
  induction vCoins generalizing s with
  | nil => exact gathered
  | cons out rest ih =>
    rw [List.map_cons] at gathered
    unfold scanCoins
    simp only
    split
    · exact ih gathered.skip
    · split
      · exact ih gathered.skip
      · split
        · rename_i same
          exact ⟨gathered.offer, same⟩
        · split
          · exact ih gathered.take
          · rename_i notSmaller
            split
            · have cent : CENT = 1000000 := rfl
              exact ih (gathered.keep (by omega))
            · exact ih gathered.skip

theorem approximate_tallied (luck : SelectionLuck) (total : nTotalLower = (vValue.map Prod.fst).sum)
    (enough : nTargetValue ≤ nTotalLower) :
    BestSubset.Tallied (valueAt vValue) nTargetValue vValue.length (approximate luck nTargetValue vValue nTotalLower) := by
  rw [sum_values] at total
  unfold approximate
  simp only
  split
  · rename_i change
    have tallied := BestSubset.approximateBestSubset_tallied total change.2 (luck.randbool 1) 1000
    have cent : CENT = 1000000 := rfl
    have reaches := tallied.reaches
    exact ⟨tallied.included, tallied.total, tallied.best, tallied.bestTotal, by omega⟩
  · exact BestSubset.approximateBestSubset_tallied total enough (luck.randbool 0) 1000

theorem bestSelection_chosen (luck : SelectionLuck) {s : Scan} (gathered : Gathered nTargetValue offered [] s)
    (enough : nTargetValue ≤ s.nTotalLower) : Chosen offered nTargetValue (bestSelection luck nTargetValue s) := by
  obtain ⟨vValue, isSorted⟩ : ∃ vValue, vValue = (luck.ties s.vValue).insertionSort fun a b => b.1 ≤ a.1 := ⟨_, rfl⟩
  have sorted : vValue.Perm s.vValue := isSorted ▸ (List.perm_insertionSort _ _).trans (luck.tied s.vValue)
  have total : s.nTotalLower = (vValue.map Prod.fst).sum := by
    rw [gathered.total]
    exact ((sorted.map Prod.fst).sum_eq).symm
  have tallied := approximate_tallied luck total enough
  have subset : Chosen offered nTargetValue
      (Selection.ofCoins (marked (approximate luck nTargetValue vValue s.nTotalLower).vfBest vValue)) := by
    refine ⟨_, ?_, rfl, ?_⟩
    · have smaller : s.vValue.Sublist offered := by simpa using gathered.smaller
      exact ((marked_sublist _ vValue).subperm.trans sorted.subperm).trans smaller.subperm
    · have best := filter_mem_eq_inter (s := range vValue.length)
        (t := (approximate luck nTargetValue vValue s.nTotalLower).vfBest)
      rw [sum_marked, best, inter_eq_right.mpr tallied.best, ← tallied.bestTotal]
      exact tallied.reaches
  unfold bestSelection
  rw [← isSorted]
  simp only
  split
  · exact subset
  · rename_i larger isLarger
    obtain ⟨offer, reaches⟩ := gathered.larger larger isLarger
    split
    · exact Chosen.single offer reaches
    · exact subset

theorem tryCoins_chosen (later : ∀ sel, next = some sel → Chosen (vCoins.map COutput.priced) nTargetValue sel)
    (found : tryCoins ctx luck nTargetValue nConfMine nConfTheirs tryDenom vCoins next = some sel) :
    Chosen (vCoins.map COutput.priced) nTargetValue sel := by
  have start : Gathered nTargetValue (vCoins.map COutput.priced) (vCoins.map COutput.priced) {} :=
    ⟨List.Sublist.refl _, rfl, fun coin isNone => nomatch isNone⟩
  have scanned : Scanned nTargetValue (vCoins.map COutput.priced)
      (scanCoins ctx nTargetValue nConfMine nConfTheirs tryDenom vCoins {}) := scanCoins_scanned vCoins start
  unfold tryCoins at found
  split at found
  · rename_i coin isExact
    rw [isExact] at scanned
    cases found
    exact Chosen.single scanned.1 scanned.2.ge
  · rename_i s isScan
    rw [isScan] at scanned
    split at found
    · rename_i same
      cases found
      have smaller : s.vValue.Sublist (vCoins.map COutput.priced) := by simpa using scanned.smaller
      exact ⟨s.vValue, smaller.subperm, rfl, by rw [← scanned.total, same]⟩
    · split at found
      · split at found
        · exact later sel found
        · rename_i larger isLarger
          cases found
          obtain ⟨offer, enough⟩ := scanned.larger larger isLarger
          exact Chosen.single offer enough
      · cases found
        exact bestSelection_chosen luck scanned (by omega)

theorem Chosen.of_perm (chosen : Chosen offered nTargetValue sel) (same : offered.Perm offered') :
    Chosen offered' nTargetValue sel := by
  obtain ⟨coins, among, isSel, enough⟩ := chosen
  exact ⟨coins, among.trans same.subperm, isSel, enough⟩

theorem selectCoinsMinConf_chosen (found : selectCoinsMinConf ctx luck nTargetValue nConfMine nConfTheirs vCoins = some sel) :
    Chosen (vCoins.map COutput.priced) nTargetValue sel := by
  have order := (List.perm_insertionSort (fun out1 out2 => lessThenDenom out2 out1 = false) (luck.shuffle vCoins)).trans
    (luck.shuffled vCoins)
  apply Chosen.of_perm _ (order.map COutput.priced)
  apply tryCoins_chosen _ found
  intro sel found
  apply tryCoins_chosen _ found
  intro sel isNone
  cases isNone

structure CoinChoice where
  coinControl : Option CCoinControl
  coin_type : AvailableCoinsType
  useIX : Bool
  fIncludeColdStaking : Bool
  fIncludeDelegated : Bool

def CoinChoice.filter (c : CoinChoice) : CoinFilter :=
  { fOnlyConfirmed := true
    coinControl := c.coinControl
    fIncludeZeroValue := false
    nCoinType := c.coin_type
    fUseIX := c.useIX
    nWatchonlyConfig := 1
    fIncludeColdStaking := c.fIncludeColdStaking
    fIncludeDelegated := c.fIncludeDelegated }

/-- With coin control, all that is selected goes into the transaction. -/
def selectCoins (ctx : SpendContext) (w : CWallet) (luck : Nat → SelectionLuck) (choice : CoinChoice) (nTargetValue : Int) :
    Option Selection :=
  let vCoins := w.availableCoins ctx choice.filter
  if choice.coinControl.any CCoinControl.hasSelected then
    let sel := Selection.ofCoins ((vCoins.filter COutput.fSpendable).map COutput.priced)
    if sel.nValueRet ≥ nTargetValue then some sel else none
  else
    selectCoinsMinConf ctx (luck 0) nTargetValue 1 6 vCoins <|> selectCoinsMinConf ctx (luck 1) nTargetValue 1 1 vCoins <|>
      (if ctx.bSpendZeroConfChange then selectCoinsMinConf ctx (luck 2) nTargetValue 0 1 vCoins else none)

structure Selected (ctx : SpendContext) (w : CWallet) (choice : CoinChoice) (nTargetValue : Int) (sel : Selection) : Prop where
  offered : ∀ coin ∈ sel.setCoins, ∃ out ∈ w.availableCoins ctx choice.filter, out.coin = coin
  worth : sel.nValueRet = ∑ coin ∈ sel.setCoins, coin.txOut.nValue
  enough : nTargetValue ≤ sel.nValueRet

theorem Chosen.worth {outs : List COutput} (once : (outs.map COutput.coin).Nodup)
    (chosen : Chosen (outs.map COutput.priced) nTargetValue sel) :
    (∀ coin ∈ sel.setCoins, ∃ out ∈ outs, out.coin = coin) ∧ sel.nValueRet = ∑ coin ∈ sel.setCoins, coin.txOut.nValue ∧
      nTargetValue ≤ sel.nValueRet := by
  obtain ⟨coins, among, rfl, enough⟩ := chosen
  have priced : ∀ p ∈ coins, p.1 = p.2.txOut.nValue := by
    intro p member
    obtain ⟨out, _, rfl⟩ := List.mem_map.mp (among.subset member)
    rfl
  have distinct : (coins.map Prod.snd).Nodup := by
    obtain ⟨listed, same, sub⟩ := among
    have below := sub.map Prod.snd
    rw [List.map_map] at below
    exact ((same.map Prod.snd).nodup_iff).mp (once.sublist below)
  refine ⟨?_, ?_, enough⟩
  · intro coin member
    obtain ⟨p, isCoin, rfl⟩ := List.mem_map.mp (List.mem_toFinset.mp member)
    obtain ⟨out, offer, rfl⟩ := List.mem_map.mp (among.subset isCoin)
    exact ⟨out, offer, rfl⟩
  · have values : coins.map Prod.fst = (coins.map Prod.snd).map fun coin => coin.txOut.nValue := by
      rw [List.map_map]
      exact List.map_congr_left priced
    show (coins.map Prod.fst).sum = _
    rw [values, Selection.ofCoins, List.sum_toFinset _ distinct]

variable {w : KeyedWallet} {choice : CoinChoice} {sel : Selection}

theorem Chosen.selected (chosen : Chosen ((w.availableCoins ctx choice.filter).map COutput.priced) nTargetValue sel) :
    Selected ctx w.toCWallet choice nTargetValue sel := by
  obtain ⟨offered, worth, enough⟩ := Chosen.worth w.nodup_availableCoins chosen
  exact ⟨offered, worth, enough⟩

theorem selectCoins_selected (found : w.selectCoins ctx luck choice nTargetValue = some sel) :
    Selected ctx w.toCWallet choice nTargetValue sel := by
  apply Chosen.selected
  unfold selectCoins at found
  simp only at found
  split at found
  · split at found
    · rename_i enough
      cases found
      have among := (List.filter_sublist (l := w.availableCoins ctx choice.filter) (p := COutput.fSpendable)).map COutput.priced
      exact ⟨_, among.subperm, rfl, enough⟩
    · cases found
  · rcases (Option.orElse_eq_some _ _ _).mp found with first | ⟨_, found⟩
    · exact selectCoinsMinConf_chosen first
    · rcases (Option.orElse_eq_some _ _ _).mp found with second | ⟨_, found⟩
      · exact selectCoinsMinConf_chosen second
      · split at found
        · exact selectCoinsMinConf_chosen found
        · cases found

end CWallet

end SchillingCoin
