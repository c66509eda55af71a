import SchillingCoin.Wallet.CoinSelection

/-!
What `SelectCoinsMinConf` finds, exactly: eligible coins that are worth what it says, a selection whenever the eligible coins are
worth the amount, and change of less than a cent only where the coins of the try that decides leave nothing else.
-/

namespace SchillingCoin

open Finset

namespace CWallet

def COutput.value (out : COutput) : Int := out.coin.txOut.nValue

def total (coins : List COutput) : Int := (coins.map COutput.value).sum

def eligible (ctx : SpendContext) (nConfMine nConfTheirs : Int) (vCoins : List COutput) : List COutput :=
  vCoins.filter fun out => deepEnough ctx nConfMine nConfTheirs out

def considered (ctx : SpendContext) (nConfMine nConfTheirs : Int) (tryDenom : Nat) (vCoins : List COutput) : List COutput :=
  (eligible ctx nConfMine nConfTheirs vCoins).filter fun out => !(decide (tryDenom = 0) && isDenominatedAmount out.value)

def ordered (luck : SelectionLuck) (vCoins : List COutput) : List COutput :=
  (luck.shuffle vCoins).insertionSort fun out1 out2 => lessThenDenom out2 out1 = false

def decidingTry (ctx : SpendContext) (luck : SelectionLuck) (nTargetValue nConfMine nConfTheirs : Int) (vCoins : List COutput) : Nat :=
  if (tryCoins ctx luck nTargetValue nConfMine nConfTheirs 0 (ordered luck vCoins) none).isSome then 0 else 1

structure Sound (coins : List COutput) (nTargetValue : Int) (sel : Selection) : Prop where
  offered : ∀ coin ∈ sel.setCoins, ∃ out ∈ coins, out.coin = coin
  worth : sel.nValueRet = ∑ coin ∈ sel.setCoins, coin.txOut.nValue
  enough : nTargetValue ≤ sel.nValueRet

def AvoidsSmallChange (coins : List COutput) (nTargetValue : Int) (sel : Selection) : Prop :=
  0 < sel.nValueRet - nTargetValue → sel.nValueRet - nTargetValue < CENT →
    (∀ out ∈ coins, out.value < nTargetValue + CENT) ∧ total coins < nTargetValue + CENT

variable {ctx : SpendContext} {luck : SelectionLuck} {nTargetValue nConfMine nConfTheirs : Int} {tryDenom : Nat}

theorem considered_cons (out : COutput) (rest : List COutput) : considered ctx nConfMine nConfTheirs tryDenom (out :: rest) =
    if deepEnough ctx nConfMine nConfTheirs out && !(decide (tryDenom = 0) && isDenominatedAmount out.value) then
      out :: considered ctx nConfMine nConfTheirs tryDenom rest
    else considered ctx nConfMine nConfTheirs tryDenom rest := by
  unfold considered eligible
  cases deep : deepEnough ctx nConfMine nConfTheirs out with
  | false => rw [List.filter_cons_of_neg (by simp [deep])]; rfl
  | true =>
    rw [List.filter_cons_of_pos deep, List.filter_cons, Bool.true_and]

variable (vCoins : List COutput)

theorem considered_second : considered ctx nConfMine nConfTheirs 1 vCoins = eligible ctx nConfMine nConfTheirs vCoins :=
  List.filter_eq_self.mpr fun _ _ => rfl

theorem considered_sublist :
    (considered ctx nConfMine nConfTheirs tryDenom vCoins).Sublist (eligible ctx nConfMine nConfTheirs vCoins) := List.filter_sublist

variable {coins coins' : List COutput}

theorem total_perm (same : coins.Perm coins') : total coins = total coins' :=
  (same.map COutput.value).sum_eq

theorem total_sublist (sub : coins.Sublist coins') (nonneg : ∀ out ∈ coins', 0 ≤ out.value) :
    total coins ≤ total coins' := by
  induction sub with
  | slnil => exact le_rfl
  | cons out _ ih =>
    have here := nonneg out (by simp)
    have rest := ih fun other member => nonneg other (by simp [member])
    simp only [total, List.map_cons, List.sum_cons] at rest ⊢
    omega
  | cons_cons out _ ih =>
    have rest := ih fun other member => nonneg other (by simp [member])
    simp only [total, List.map_cons, List.sum_cons] at rest ⊢
    omega

theorem value_le_total (nonneg : ∀ out ∈ coins, 0 ≤ out.value) (member : out ∈ coins) : out.value ≤ total coins := by
  have single := total_sublist (List.singleton_sublist.mpr member) nonneg
  simpa [total] using single

structure Complete (nTargetValue : Int) (seen : List COutput) (s : Scan) : Prop where
  larger : ∀ coin, s.coinLowestLarger = some coin → ∃ out ∈ seen, coin = out.priced ∧ nTargetValue + CENT ≤ out.value
  smaller : s.coinLowestLarger = none → (∀ out ∈ seen, out.value < nTargetValue + CENT) ∧ s.nTotalLower = total seen

theorem Complete.start (nTargetValue : Int) : Complete nTargetValue [] {} where
  larger _ isSome := nomatch isSome
  smaller _ := ⟨fun _ member => absurd member List.not_mem_nil, rfl⟩

section

variable {seen : List COutput} {s : Scan} {out : COutput}

theorem Complete.take (complete : Complete nTargetValue seen s) (small : out.value < nTargetValue + CENT) :
    Complete nTargetValue (seen ++ [out]) { s with vValue := s.vValue ++ [out.priced], nTotalLower := s.nTotalLower + out.value } := by
  refine ⟨fun coin isLarger => ?_, fun isNone => ?_⟩
  · obtain ⟨other, member, found⟩ := complete.larger coin isLarger
    exact ⟨other, List.mem_append_left _ member, found⟩
  · obtain ⟨below, sum⟩ := complete.smaller isNone
    refine ⟨fun other member => ?_, ?_⟩
    · rcases List.mem_append.mp member with before | last
      · exact below other before
      · rw [List.mem_singleton.mp last]
        exact small
    · show s.nTotalLower + out.value = _
      simp [total, sum]

theorem Complete.keep (large : nTargetValue + CENT ≤ out.value) :
    Complete nTargetValue (seen ++ [out]) { s with coinLowestLarger := some out.priced } := by
  refine ⟨?_, fun isNone => nomatch isNone⟩
  rintro _ ⟨⟩
  exact ⟨out, by simp, rfl, large⟩

theorem Complete.pass (complete : Complete nTargetValue seen s) (there : s.coinLowestLarger ≠ none) :
    Complete nTargetValue (seen ++ [out]) s := by
  refine ⟨fun coin isLarger => ?_, fun isNone => absurd isNone there⟩
  obtain ⟨other, member, found⟩ := complete.larger coin isLarger
  exact ⟨other, List.mem_append_left _ member, found⟩

end

def Looked (nTargetValue : Int) (seen : List COutput) : (Int × Coin) ⊕ Scan → Prop
  | .inl coin => ∃ out ∈ seen, coin = out.priced ∧ out.value = nTargetValue
  | .inr s => Complete nTargetValue seen s

theorem scanCoins_looked (complete : Complete nTargetValue seen s) (bounded : ∀ out ∈ vCoins, out.value < 2 ^ 63 - 1) :
    Looked nTargetValue (seen ++ considered ctx nConfMine nConfTheirs tryDenom vCoins)
      (scanCoins ctx nTargetValue nConfMine nConfTheirs tryDenom vCoins s) := by
  induction vCoins generalizing seen s with
  | nil =>
    have nothing : considered ctx nConfMine nConfTheirs tryDenom [] = [] := rfl
    rw [nothing, List.append_nil]
    exact complete
  | cons out rest ih =>
    have later {seen : List COutput} {s : Scan} (complete : Complete nTargetValue seen s) :=
      ih complete fun other member => bounded other (List.mem_cons_of_mem out member)
    have value : out.priced.1 = out.value := rfl
    rw [considered_cons]
    unfold scanCoins
    simp only [value]
    cases deep : deepEnough ctx nConfMine nConfTheirs out with
    | false => exact later complete
    | true =>
      cases denom : decide (tryDenom = 0) && isDenominatedAmount out.value with
      | true => exact later complete
      | false =>
        have here : seen ++ out :: considered ctx nConfMine nConfTheirs tryDenom rest =
            (seen ++ [out]) ++ considered ctx nConfMine nConfTheirs tryDenom rest := by simp
        simp only [Bool.not_true, Bool.false_eq_true, if_false, Bool.not_false, Bool.and_self, if_true, here]
        by_cases same : out.value = nTargetValue
        · rw [if_pos same]
          exact ⟨out, by simp, rfl, same⟩
        · rw [if_neg same]
          by_cases small : out.value < nTargetValue + CENT
          · rw [if_pos small]
            exact later (complete.take small)
          · rw [if_neg small]
            by_cases nearer : out.value < (s.coinLowestLarger.map Prod.fst).getD (2 ^ 63 - 1)
            · rw [if_pos nearer]
              exact later (Complete.keep (by omega))
            · rw [if_neg nearer]
              refine later (complete.pass fun isNone => nearer ?_)
              rw [isNone]
              exact bounded out List.mem_cons_self

theorem scanCoins_eligible (s : Scan) :
    scanCoins ctx nTargetValue nConfMine nConfTheirs tryDenom (eligible ctx nConfMine nConfTheirs vCoins) s =
      scanCoins ctx nTargetValue nConfMine nConfTheirs tryDenom vCoins s := by
  induction vCoins generalizing s with
  | nil => rfl
  | cons out rest ih =>
    unfold eligible at ih ⊢
    cases deep : deepEnough ctx nConfMine nConfTheirs out with
    | false =>
      rw [List.filter_cons_of_neg (by simp [deep]), ih]
      conv_rhs => rw [scanCoins]
      simp [deep]
    | true =>
      rw [List.filter_cons_of_pos deep]
      unfold scanCoins
      simp only [ih]

theorem tryCoins_eligible (next : Option Selection) :
    tryCoins ctx luck nTargetValue nConfMine nConfTheirs tryDenom (eligible ctx nConfMine nConfTheirs vCoins) next =
      tryCoins ctx luck nTargetValue nConfMine nConfTheirs tryDenom vCoins next := by
  unfold tryCoins
  rw [scanCoins_eligible]

theorem marked_worth (tallied : BestSubset.Tallied (valueAt vValue) nTargetValue vValue.length t) :
    (Selection.ofCoins (marked t.vfBest vValue)).nValueRet = t.nBest := by
  show ((marked t.vfBest vValue).map Prod.fst).sum = t.nBest
  rw [sum_marked, filter_mem_eq_inter, inter_eq_right.mpr tallied.best, tallied.bestTotal]

theorem approximate_change (sum : nTotalLower = (vValue.map Prod.fst).sum) :
    (approximate luck nTargetValue vValue nTotalLower).nBest = nTargetValue ∨
      nTargetValue + CENT ≤ (approximate luck nTargetValue vValue nTotalLower).nBest ∨ nTotalLower < nTargetValue + CENT := by
  rw [sum_values] at sum
  unfold approximate
  simp only
  split
  · rename_i change
    exact Or.inr (Or.inl (BestSubset.approximateBestSubset_tallied sum change.2 (luck.randbool 1) 1000).reaches)
  · rename_i kept
    by_cases same : (BestSubset.approximateBestSubset (valueAt vValue) nTargetValue vValue.length nTotalLower (luck.randbool 0) 1000).nBest =
        nTargetValue
    · exact Or.inl same
    · refine Or.inr (Or.inr ?_)
      by_contra more
      exact kept ⟨same, by omega⟩

theorem bestSelection_change (complete : Complete nTargetValue coins s) (sum : s.nTotalLower = (s.vValue.map Prod.fst).sum)
    (enough : nTargetValue ≤ s.nTotalLower) : AvoidsSmallChange coins nTargetValue (bestSelection luck nTargetValue s) := by
  obtain ⟨vValue, isSorted⟩ : ∃ vValue, vValue = (luck.ties s.vValue).insertionSort fun a b => b.1 ≤ a.1 := ⟨_, rfl⟩
  have sorted : vValue.Perm s.vValue := isSorted ▸ (List.perm_insertionSort _ _).trans (luck.tied s.vValue)
  have sum' : s.nTotalLower = (vValue.map Prod.fst).sum := sum.trans (sorted.map Prod.fst).sum_eq.symm
  have worth := marked_worth (approximate_tallied luck sum' enough)
  have change : _ ∨ nTargetValue + CENT ≤ (approximate luck nTargetValue vValue s.nTotalLower).nBest ∨ _ := approximate_change sum'
  unfold bestSelection
  rw [← isSorted]
  simp only
  generalize approximate luck nTargetValue vValue s.nTotalLower = found at worth change ⊢
  intro some_ small
  cases isLarger : s.coinLowestLarger with
  | none =>
    rw [isLarger] at some_ small
    simp only [worth] at some_ small
    obtain ⟨below, all⟩ := complete.smaller isLarger
    rw [← all]
    exact ⟨below, by omega⟩
  | some larger =>
    obtain ⟨out, -, rfl, far⟩ := complete.larger larger isLarger
    have value : out.priced.1 = out.value := rfl
    rw [isLarger] at some_ small
    simp only at some_ small
    split at some_
    · next taken =>
      rw [if_pos taken] at small
      simp only [Selection.ofCoins, List.map_cons, List.map_nil, List.sum_cons, List.sum_nil, value] at small
      omega
    · next left =>
      rw [if_neg left] at small
      rw [worth] at some_ small
      exact absurd (Or.inl ⟨by omega, by omega⟩) left

section Tries

variable {vCoins : List COutput} {next : Option Selection}

theorem considered_subset (member : out ∈ considered ctx nConfMine nConfTheirs tryDenom vCoins) : out ∈ vCoins :=
  ((considered_sublist vCoins).trans List.filter_sublist).subset member

theorem scanCoins_found (bounded : ∀ out ∈ vCoins, out.value < 2 ^ 63 - 1) :
    Looked nTargetValue (considered ctx nConfMine nConfTheirs tryDenom vCoins)
      (scanCoins ctx nTargetValue nConfMine nConfTheirs tryDenom vCoins {}) :=
  scanCoins_looked vCoins (Complete.start nTargetValue) bounded

theorem scanCoins_total (scanned : scanCoins ctx nTargetValue nConfMine nConfTheirs tryDenom vCoins {} = .inr s) :
    s.nTotalLower = (s.vValue.map Prod.fst).sum := by
  have gathered : Scanned nTargetValue (vCoins.map COutput.priced)
      (scanCoins ctx nTargetValue nConfMine nConfTheirs tryDenom vCoins {}) :=
    scanCoins_scanned vCoins ⟨List.Sublist.refl _, rfl, fun coin isNone => nomatch isNone⟩
  rw [scanned] at gathered
  exact gathered.total

theorem tryCoins_short (bounded : ∀ out ∈ vCoins, out.value < 2 ^ 63 - 1) (nonneg : ∀ out ∈ vCoins, 0 ≤ out.value)
    (short : total (considered ctx nConfMine nConfTheirs tryDenom vCoins) < nTargetValue) :
    tryCoins ctx luck nTargetValue nConfMine nConfTheirs tryDenom vCoins next = next := by
  have cent : CENT = 1000000 := rfl
  have looked : Looked nTargetValue (considered ctx nConfMine nConfTheirs tryDenom vCoins)
      (scanCoins ctx nTargetValue nConfMine nConfTheirs tryDenom vCoins {}) := scanCoins_found bounded
  have below : ∀ out ∈ considered ctx nConfMine nConfTheirs tryDenom vCoins, out.value < nTargetValue := fun out member =>
    lt_of_le_of_lt (value_le_total (fun out member => nonneg out (considered_subset member)) member) short
  unfold tryCoins
  cases found : scanCoins ctx nTargetValue nConfMine nConfTheirs tryDenom vCoins {} with
  | inl coin =>
    rw [found] at looked
    obtain ⟨out, member, -, same⟩ := looked
    have := below out member
    omega
  | inr s =>
    rw [found] at looked
    have isNone : s.coinLowestLarger = none := by
      by_contra isSome
      obtain ⟨larger, isLarger⟩ := Option.ne_none_iff_exists'.mp isSome
      obtain ⟨out, member, -, far⟩ := looked.larger larger isLarger
      have := below out member
      omega
    have sum := (looked.smaller isNone).2
    simp only [sum, isNone]
    rw [if_neg (by omega), if_pos short]

theorem tryCoins_reaches (luck : SelectionLuck) (next : Option Selection) (bounded : ∀ out ∈ vCoins, out.value < 2 ^ 63 - 1)
    (enough : nTargetValue ≤ total (considered ctx nConfMine nConfTheirs tryDenom vCoins)) :
    ∃ sel, tryCoins ctx luck nTargetValue nConfMine nConfTheirs tryDenom vCoins next = some sel ∧
      AvoidsSmallChange (considered ctx nConfMine nConfTheirs tryDenom vCoins) nTargetValue sel := by
  have looked : Looked nTargetValue (considered ctx nConfMine nConfTheirs tryDenom vCoins)
      (scanCoins ctx nTargetValue nConfMine nConfTheirs tryDenom vCoins {}) := scanCoins_found bounded
  have exact_ {sel : Selection} (same : sel.nValueRet = nTargetValue) :
      AvoidsSmallChange (considered ctx nConfMine nConfTheirs tryDenom vCoins) nTargetValue sel := by
    intro some_ _
    omega
  have single (coin : Int × Coin) : (Selection.ofCoins [coin]).nValueRet = coin.1 := by simp [Selection.ofCoins]
  unfold tryCoins
  cases found : scanCoins ctx nTargetValue nConfMine nConfTheirs tryDenom vCoins {} with
  | inl coin =>
    rw [found] at looked
    obtain ⟨out, -, rfl, same⟩ := looked
    exact ⟨_, rfl, exact_ ((single _).trans same)⟩
  | inr s =>
    have sum := scanCoins_total found
    rw [found] at looked
    simp only
    by_cases same : s.nTotalLower = nTargetValue
    · rw [if_pos same]
      exact ⟨_, rfl, exact_ (sum.symm.trans same)⟩
    · rw [if_neg same]
      by_cases short : s.nTotalLower < nTargetValue
      · rw [if_pos short]
        cases isLarger : s.coinLowestLarger with
        | none =>
          have := (looked.smaller isLarger).2
          omega
        | some larger =>
          obtain ⟨out, -, rfl, far⟩ := looked.larger larger isLarger
          refine ⟨_, rfl, fun _ small => ?_⟩
          have value : out.priced.1 = out.value := rfl
          rw [single, value] at small
          omega
      · rw [if_neg short]
        exact ⟨_, rfl, bestSelection_change looked sum (by omega)⟩

end Tries

theorem ordered_perm (luck : SelectionLuck) (vCoins : List COutput) : (ordered luck vCoins).Perm vCoins :=
  (List.perm_insertionSort _ _).trans (luck.shuffled vCoins)

theorem selectCoinsMinConf_eq : selectCoinsMinConf ctx luck nTargetValue nConfMine nConfTheirs vCoins =
    tryCoins ctx luck nTargetValue nConfMine nConfTheirs 0 (ordered luck vCoins)
      (tryCoins ctx luck nTargetValue nConfMine nConfTheirs 1 (ordered luck vCoins) none) := rfl

theorem selectCoinsMinConf_eligible {vCoins : List COutput}
    (found : selectCoinsMinConf ctx luck nTargetValue nConfMine nConfTheirs vCoins = some sel) :
    Chosen ((eligible ctx nConfMine nConfTheirs vCoins).map COutput.priced) nTargetValue sel := by
  have order : (eligible ctx nConfMine nConfTheirs (ordered luck vCoins)).Perm (eligible ctx nConfMine nConfTheirs vCoins) :=
    (ordered_perm luck vCoins).filter _
  rw [selectCoinsMinConf_eq, ← tryCoins_eligible, ← tryCoins_eligible (ordered luck vCoins) none] at found
  apply Chosen.of_perm _ (order.map COutput.priced)
  apply tryCoins_chosen _ found
  intro sel found
  apply tryCoins_chosen _ found
  intro sel isNone
  cases isNone

def decidingCoins (ctx : SpendContext) (luck : SelectionLuck) (nTargetValue nConfMine nConfTheirs : Int) (vCoins : List COutput) :
    List COutput :=
  considered ctx nConfMine nConfTheirs (decidingTry ctx luck nTargetValue nConfMine nConfTheirs vCoins) vCoins

theorem AvoidsSmallChange.of_perm (avoids : AvoidsSmallChange coins nTargetValue sel) (same : coins.Perm coins') :
    AvoidsSmallChange coins' nTargetValue sel := by
  intro some_ small
  obtain ⟨below, all⟩ := avoids some_ small
  exact ⟨fun out member => below out (same.mem_iff.mpr member), (total_perm same) ▸ all⟩

/-- For every shuffle and all random bits: what is selected is sound, nothing is selected exactly when the eligible coins are too few, and
change below a cent is left only where the coins of the deciding pass allow no other choice. -/
theorem selectCoinsMinConf_exact (ctx : SpendContext) (luck : SelectionLuck) (nTargetValue nConfMine nConfTheirs : Int)
    {vCoins : List COutput} (distinct : (vCoins.map COutput.coin).Nodup) (positive : ∀ out ∈ vCoins, 0 < out.value)
    (inRange : ctx.network.consensus.moneyRange (total vCoins) = true) :
    (∀ sel, selectCoinsMinConf ctx luck nTargetValue nConfMine nConfTheirs vCoins = some sel →
      Sound (eligible ctx nConfMine nConfTheirs vCoins) nTargetValue sel) ∧
    (selectCoinsMinConf ctx luck nTargetValue nConfMine nConfTheirs vCoins = none ↔
      total (eligible ctx nConfMine nConfTheirs vCoins) < nTargetValue) ∧
    ∀ sel, selectCoinsMinConf ctx luck nTargetValue nConfMine nConfTheirs vCoins = some sel →
      AvoidsSmallChange (decidingCoins ctx luck nTargetValue nConfMine nConfTheirs vCoins) nTargetValue sel := by
  have order := ordered_perm luck vCoins
  have same (tryDenom : Nat) : (considered ctx nConfMine nConfTheirs tryDenom (ordered luck vCoins)).Perm
      (considered ctx nConfMine nConfTheirs tryDenom vCoins) := (order.filter _).filter _
  have nonneg : ∀ out ∈ ordered luck vCoins, 0 ≤ out.value := fun out member => (positive out (order.mem_iff.mp member)).le
  have bounded : ∀ out ∈ ordered luck vCoins, out.value < 2 ^ 63 - 1 := by
    intro out member
    have most := value_le_total nonneg member
    have money : ctx.network.consensus.nMaxMoneyOut < 2 ^ 63 - 1 := by cases ctx.network <;> decide
    simp only [Consensus.Params.moneyRange, Bool.and_eq_true, decide_eq_true_eq] at inRange
    rw [total_perm order] at most
    omega
  have once : ((eligible ctx nConfMine nConfTheirs vCoins).map COutput.coin).Nodup := distinct.sublist (List.filter_sublist.map _)
  refine ⟨fun sel found => ?_, ?_⟩
  · obtain ⟨offered, worth, enough⟩ := Chosen.worth once (selectCoinsMinConf_eligible found)
    exact ⟨offered, worth, enough⟩
  rw [selectCoinsMinConf_eq]
  by_cases first : nTargetValue ≤ total (considered ctx nConfMine nConfTheirs 0 vCoins)
  · have enough := first
    rw [← total_perm (same 0)] at enough
    obtain ⟨sel, decided, avoids⟩ := tryCoins_reaches luck (tryCoins ctx luck nTargetValue nConfMine nConfTheirs 1 (ordered luck vCoins) none)
      bounded enough
    obtain ⟨_, alone, -⟩ := tryCoins_reaches luck none bounded enough
    have deciding : decidingTry ctx luck nTargetValue nConfMine nConfTheirs vCoins = 0 := by
      rw [decidingTry, alone]
      rfl
    rw [decided, decidingCoins, deciding]
    constructor
    · have more : total (considered ctx nConfMine nConfTheirs 0 vCoins) ≤ total (eligible ctx nConfMine nConfTheirs vCoins) :=
        total_sublist (considered_sublist vCoins) fun out member => (positive out (List.mem_filter.mp member).1).le
      simp only [reduceCtorEq, false_iff]
      omega
    · rintro _ ⟨⟩
      exact avoids.of_perm (same 0)
  · have short := Int.not_le.mp first
    rw [← total_perm (same 0)] at short
    have deciding : decidingTry ctx luck nTargetValue nConfMine nConfTheirs vCoins = 1 := by
      rw [decidingTry, tryCoins_short bounded nonneg short]
      rfl
    rw [tryCoins_short bounded nonneg short, decidingCoins, deciding, ← considered_second]
    by_cases second : nTargetValue ≤ total (considered ctx nConfMine nConfTheirs 1 vCoins)
    · have enough := second
      rw [← total_perm (same 1)] at enough
      obtain ⟨sel, decided, avoids⟩ := tryCoins_reaches luck none bounded enough
      rw [decided]
      constructor
      · simp only [reduceCtorEq, false_iff]
        omega
      · rintro _ ⟨⟩
        exact avoids.of_perm (same 1)
    · have less := Int.not_le.mp second
      have less' := less
      rw [← total_perm (same 1)] at less'
      rw [tryCoins_short bounded nonneg less']
      exact ⟨iff_of_true rfl less, fun sel isSome => by cases isSome⟩

def pickedTx : CWalletTx where
  tx := { hash := 0x61, vin := [], vout := [3, 4, 6, 5].map fun cents => { nValue := cents * CENT, scriptPubKey := [0x51] } }

def pickedCoins : List COutput := (List.range 4).map fun i => ⟨pickedTx, i, 6, true⟩

def pickContext : SpendContext where
  mapBlockIndex := ∅
  chainActive := ⟨[], CChain.heights_nil⟩
  inMempool _ := false
  getTransactionLockSignatures _ := 0
  nSwiftTXDepth := 5
  getAdjustedTime := 0
  isMine _ := true
  isFromMe _ := true
  network := .main
  checkFinalTx _ := true
  isFinalTx _ := true
  isMineScript _ := ISMINE_SPENDABLE
  hasDelegator _ := false
  fMasterNode := false
  bSpendZeroConfChange := true

def pickLuck : SelectionLuck where
  shuffle := id
  shuffled := List.Perm.refl
  ties := id
  tied := List.Perm.refl
  randbool _ nRep i := (nRep + i) % 2 = 0

/-- No coin is the target and none is above it: the search for a subset finds two of the four that make it up. -/
theorem two_coins_selected_exactly : ∃ sel, selectCoinsMinConf pickContext pickLuck (10 * CENT) 1 6 pickedCoins = some sel ∧
    sel.nValueRet = 10 * CENT ∧ Sound (eligible pickContext 1 6 pickedCoins) (10 * CENT) sel ∧
    AvoidsSmallChange (decidingCoins pickContext pickLuck (10 * CENT) 1 6 pickedCoins) (10 * CENT) sel := by
  have distinct : (pickedCoins.map COutput.coin).Nodup := by decide
  have value : (selectCoinsMinConf pickContext pickLuck (10 * CENT) 1 6 pickedCoins).map Selection.nValueRet = some (10 * CENT) := by decide
  obtain ⟨sound, complete, avoids⟩ := selectCoinsMinConf_exact pickContext pickLuck (10 * CENT) 1 6 distinct (by decide) (by decide)
  cases found : selectCoinsMinConf pickContext pickLuck (10 * CENT) 1 6 pickedCoins with
  | none => exact absurd (complete.mp found) (by decide)
  | some sel =>
    rw [found] at value
    exact ⟨sel, rfl, Option.some.inj value, sound sel found, avoids sel found⟩

end CWallet

end SchillingCoin
