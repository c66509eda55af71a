import SchillingCoin.Coins.Value
import SchillingCoin.Validation.Accepted

/-!
The values that connecting a block moves, as exact integers: what each transaction takes in and pays
out, against the 64-bit totals `ConnectBlock` keeps and against the value of the coins view.
-/

namespace SchillingCoin

variable (x y : Int) (l : List TxValues)

def FitsInt64 : Prop := -2 ^ 63 ≤ x ∧ x < 2 ^ 63

theorem int64_of_fits {x : Int} (fits : FitsInt64 x) : int64 x = x := by
  unfold FitsInt64 at fits
  exact Int.bmod_eq_of_le (by omega) (by omega)

theorem int64_int64_add : int64 (int64 x + y) = int64 (x + y) := Int.bmod_add_bmod

theorem int64_add_int64 : int64 (x + int64 y) = int64 (x + y) := Int.add_bmod_bmod

theorem int64_int64_sub : int64 (int64 x - y) = int64 (x - y) := Int.bmod_sub_bmod

theorem int64_sub_int64 : int64 (x - int64 y) = int64 (x - y) := Int.sub_bmod_bmod

theorem scanl_bounds {α : Type} (f low high : α → Int) {l : List α} (start : Int)
    (bounds : ∀ e ∈ l, -low e ≤ f e ∧ f e ≤ high e ∧ 0 ≤ low e ∧ 0 ≤ high e) :
    ∀ x ∈ (l.map f).scanl (· + ·) start, start - (l.map low).sum ≤ x ∧ x ≤ start + (l.map high).sum := by
  induction l generalizing start with
  | nil => simp
  | cons e l ih =>
    intro x mem
    obtain ⟨lower, upper, low_, high_⟩ := bounds e (by simp)
    have rest : ∀ d ∈ l, -low d ≤ f d ∧ f d ≤ high d ∧ 0 ≤ low d ∧ 0 ≤ high d := fun d h => bounds d (by simp [h])
    have lows : 0 ≤ (l.map low).sum := List.sum_nonneg fun y h => by
      obtain ⟨d, memd, rfl⟩ := List.mem_map.mp h
      exact (rest d memd).2.2.1
    have highs : 0 ≤ (l.map high).sum := List.sum_nonneg fun y h => by
      obtain ⟨d, memd, rfl⟩ := List.mem_map.mp h
      exact (rest d memd).2.2.2
    simp only [List.map_cons, List.scanl_cons, List.mem_cons, List.sum_cons] at mem ⊢
    rcases mem with rfl | mem
    · omega
    · have := ih (start + f e) rest x mem
      omega

structure TxValues where
  ins : List Int
  outs : List Int
  paysFee : Bool
  burned : Int

namespace TxValues

variable (e : TxValues)

def valueIn : Int := e.ins.sum
def valueOut : Int := e.outs.sum
def fee : Int := if e.paysFee then e.valueIn - e.valueOut else 0

def of (v : CoinsView) (tx : CTransaction) : TxValues where
  ins := if tx.isCoinBase then [] else tx.vin.map fun i => v.valueAt i.prevout
  outs := tx.vout.map CTxOut.nValue
  paysFee := !tx.isCoinBase && !tx.isCoinStake
  burned := tx.valueBurned

structure Nonneg (e : TxValues) : Prop where
  ins : ∀ x ∈ e.ins, 0 ≤ x
  outs : ∀ x ∈ e.outs, 0 ≤ x
  burned : 0 ≤ e.burned

variable {e : TxValues}

theorem Nonneg.valueIn (nonneg : e.Nonneg) : 0 ≤ e.valueIn := List.sum_nonneg nonneg.ins

theorem Nonneg.valueOut (nonneg : e.Nonneg) : 0 ≤ e.valueOut := List.sum_nonneg nonneg.outs

theorem Nonneg.fee (nonneg : e.Nonneg) : -e.valueOut ≤ e.fee ∧ e.fee ≤ e.valueIn := by
  have ins := nonneg.valueIn
  have outs := nonneg.valueOut
  unfold TxValues.fee
  split <;> omega

end TxValues

def blockValues (nHeight : Nat) : CoinsView → List CTransaction → List TxValues
  | _, [] => []
  | v, tx :: rest =>
    .of v tx :: match v.updateCoins tx nHeight with
      | none => []
      | some (v, _) => blockValues nHeight v rest

def totalIn : Int := (l.map TxValues.valueIn).sum
def totalOut : Int := (l.map TxValues.valueOut).sum
def totalFees : Int := (l.map TxValues.fee).sum
def totalBurned : Int := (l.map TxValues.burned).sum

variable {v : CoinsView} {tx : CTransaction} {nValueIn : Int}

theorem spendInputs_values (sound : v.Sound) (h : v.spendInputs vin = some (w, undos)) :
    w.Sound ∧ w.totalUnspent = v.totalUnspent - (vin.map fun i => v.valueAt i.prevout).sum ∧
      (∀ i ∈ vin, ((v.coinsAt i.prevout.hash).outputAt i.prevout.n).isNull = false) ∧
      ∀ t, (∀ i ∈ vin, i.prevout.hash ≠ t) → w.coinsAt t = v.coinsAt t := by
  induction vin generalizing v undos with
  | nil =>
    simp only [CoinsView.spendInputs, Option.some.injEq, Prod.mk.injEq] at h
    obtain ⟨rfl, _⟩ := h
    simp [sound]
  | cons txin rest ih =>
    simp only [CoinsView.spendInputs, Option.bind_eq_bind, Option.bind_eq_some_iff] at h
    obtain ⟨⟨mid, undo⟩, first, ⟨last, undos'⟩, later, done⟩ := h
    obtain ⟨rfl, _⟩ := Prod.mk.inj (Option.some.inj done)
    obtain ⟨sound', total, unspent, others⟩ := ih (sound.spend first) later
    obtain ⟨_, spent, kept⟩ := CoinsView.spend_coinsAt sound.clean first
    -- an input of the rest is not the one just spent, so its output is the same before
    have same : ∀ i ∈ rest, (mid.coinsAt i.prevout.hash).outputAt i.prevout.n =
        (v.coinsAt i.prevout.hash).outputAt i.prevout.n := by
      intro i mem
      by_cases here : i.prevout.hash = txin.prevout.hash
      · have output := spent.outputs i.prevout.n
        rw [← here] at output
        by_cases twice : i.prevout.n = txin.prevout.n
        · rw [if_pos twice] at output
          have live := unspent i mem
          rw [output] at live
          cases live
        · rw [output, if_neg twice]
      · rw [kept _ here]
    have values : (rest.map fun i => mid.valueAt i.prevout).sum = (rest.map fun i => v.valueAt i.prevout).sum := by
      congr 1
      apply List.map_congr_left
      intro i mem
      rw [CoinsView.valueAt, CoinsView.valueAt, same i mem]
    refine ⟨sound', ?_, ?_, ?_⟩
    · rw [total, values, CoinsView.totalUnspent_spend first, List.map_cons, List.sum_cons]
      omega
    · intro i mem
      rcases List.mem_cons.mp mem with rfl | mem
      · exact spent.unspent
      · rw [← same i mem]
        exact unspent i mem
    · intro t away
      rw [others t fun i mem => away i (by simp [mem]), kept t (Ne.symm (away txin (by simp)))]

theorem getValueIn_values (plain : tx.isCoinBase = false) (h : v.getValueIn tx = some nValueIn) (x : Int) :
    int64 (x + nValueIn) = int64 (x + (tx.vin.map fun i => v.valueAt i.prevout).sum) := by
  rw [CoinsView.getValueIn, plain, if_neg (by simp)] at h
  have loop : ∀ (vin : List CTxIn) (acc total : Int),
      vin.foldlM (fun nResult i => (v.getOutputFor i).map fun o => int64 (nResult + o.nValue)) acc = some total →
      int64 (x + total) = int64 (x + (acc + (vin.map fun i => v.valueAt i.prevout).sum)) := by
    intro vin
    induction vin with
    | nil =>
      intro acc total done
      obtain rfl : acc = total := by simpa using done
      simp
    | cons i vin ih =>
      intro acc total done
      simp only [List.foldlM_cons, Option.bind_eq_bind, Option.bind_eq_some_iff, Option.map_eq_some_iff] at done
      obtain ⟨mid, ⟨o, found, rfl⟩, rest⟩ := done
      have value : o.nValue = v.valueAt i.prevout := by
        unfold CoinsView.getOutputFor at found
        split at found
        · rw [CoinsView.valueAt, CCoins.outputAt, List.getD_eq_getElem?_getD, found]
          rfl
        · cases found
      generalize sum : (vin.map fun i => v.valueAt i.prevout).sum = later at ih
      calc int64 (x + total)
        _ = int64 (x + (int64 (acc + o.nValue) + later)) := ih _ _ rest
        _ = int64 (x + later + int64 (acc + o.nValue)) := by congr 1; omega
        _ = int64 (x + later + (acc + o.nValue)) := int64_add_int64 _ _
        _ = _ := by
          rw [List.map_cons, List.sum_cons, sum, value]
          congr 1
          omega
  simpa using loop tx.vin 0 nValueIn h

structure BlockTotals.Match (t : BlockTotals) (nValueIn nValueOut nFees : Int) : Prop where
  nValueIn : t.nValueIn = int64 nValueIn
  nValueOut : t.nValueOut = int64 nValueOut
  nFees : t.nFees = int64 nFees

theorem valueAt_nonneg (sound : v.Sound) (unspent : ((v.coinsAt o.hash).outputAt o.n).isNull = false) : 0 ≤ v.valueAt o := by
  unfold CoinsView.valueAt
  rw [CCoins.outputAt, List.getD_eq_getElem?_getD] at unspent ⊢
  cases found : (v.coinsAt o.hash).vout[o.n]? with
  | none => simp [found] at unspent
  | some out =>
    have value := sound.nonneg o.hash out (List.mem_of_getElem? found)
    rw [found, Option.getD_some] at unspent
    rwa [CTxOut.unspentValue, unspent, if_neg (by simp)] at value

theorem updateCoins_values (sound : v.Sound) (free : tx.containsZerocoins = false)
    (pruned : (v.coinsAt tx.hash).isPruned = true) (outputs : ∀ o ∈ tx.vout, 0 ≤ o.nValue)
    (h : v.updateCoins tx nHeight = some (w, txundo)) :
    w.Sound ∧ (TxValues.of v tx).Nonneg ∧
      w.totalUnspent = v.totalUnspent - (TxValues.of v tx).valueIn + (TxValues.of v tx).valueOut - tx.valueBurned := by
  have noSpends := CTransaction.spendInputs_false free
  have nonnegOuts : ∀ x ∈ (TxValues.of v tx).outs, 0 ≤ x := by
    intro x mem
    obtain ⟨o, output, rfl⟩ := List.mem_map.mp mem
    exact outputs o output
  unfold CoinsView.updateCoins at h
  cases base : tx.isCoinBase with
  | true =>
    rw [base, if_neg (by simp)] at h
    obtain ⟨rfl, _⟩ := Prod.mk.inj (Option.some.inj h)
    refine ⟨sound.addOutputs outputs nHeight, ⟨by simp [TxValues.of, base], nonnegOuts, CTransaction.valueBurned_nonneg outputs⟩, ?_⟩
    rw [CoinsView.totalUnspent_addOutputs pruned outputs]
    simp [TxValues.valueIn, TxValues.valueOut, TxValues.of, base, CTransaction.valueOut]
  | false =>
    rw [base, noSpends, if_pos (by simp)] at h
    obtain ⟨⟨mid, undo⟩, spent, done⟩ := Option.bind_eq_some_iff.mp h
    obtain ⟨rfl, _⟩ := Prod.mk.inj (Option.some.inj done)
    obtain ⟨sound', total, unspent, others⟩ := spendInputs_values sound spent
    have away : ∀ i ∈ tx.vin, i.prevout.hash ≠ tx.hash := by
      intro i mem same
      have live := unspent i mem
      rw [same, CCoins.isPruned_iff_outputAt.mp pruned] at live
      cases live
    have nonnegIns : ∀ x ∈ (TxValues.of v tx).ins, 0 ≤ x := by
      intro x mem
      simp only [TxValues.of, base, Bool.false_eq_true, if_false] at mem
      obtain ⟨i, input, rfl⟩ := List.mem_map.mp mem
      exact valueAt_nonneg sound (unspent i input)
    refine ⟨sound'.addOutputs outputs nHeight, ⟨nonnegIns, nonnegOuts, CTransaction.valueBurned_nonneg outputs⟩, ?_⟩
    rw [CoinsView.totalUnspent_addOutputs (by rw [others _ away]; exact pruned) outputs, total]
    simp [TxValues.valueIn, TxValues.valueOut, TxValues.of, base, CTransaction.valueOut]

theorem TxConnected.totals_match (free : tx.containsZerocoins = false) (connected : TxConnected ctx i st st' tx txundo)
    (before : st.totals.Match nValueIn nValueOut nFees) :
    st'.totals.Match (nValueIn + (TxValues.of st.view tx).valueIn) (nValueOut + (TxValues.of st.view tx).valueOut)
      (nFees + (TxValues.of st.view tx).fee) := by
  obtain ⟨out, value, sumOut⟩ := connected.valueOut
  have exactOut : out = (TxValues.of st.view tx).valueOut := (getValueOut_spec value).2.1
  have matchOut : st'.totals.nValueOut = int64 (nValueOut + (TxValues.of st.view tx).valueOut) := by
    rw [sumOut, before.nValueOut, int64_int64_add, exactOut]
  cases base : tx.isCoinBase with
  | true =>
    obtain ⟨sumIn, fees⟩ := connected.coinbase base
    have none : (TxValues.of st.view tx).valueIn = 0 := by simp [TxValues.valueIn, TxValues.of, base]
    have free : (TxValues.of st.view tx).fee = 0 := by simp [TxValues.fee, TxValues.of, base]
    rw [none, free, add_zero, add_zero]
    exact ⟨sumIn.trans before.nValueIn, matchOut, fees.trans before.nFees⟩
  | false =>
    obtain ⟨_, in_, got, _, sumIn, stake, fees⟩ := connected.spends (by simp [CTransaction.spendsCoins_of_free free, base])
    have exactIn := getValueIn_values base got
    have ins : (tx.vin.map fun i => st.view.valueAt i.prevout).sum = (TxValues.of st.view tx).valueIn := by
      simp [TxValues.valueIn, TxValues.of, base]
    rw [ins] at exactIn
    refine ⟨by rw [sumIn, before.nValueIn, int64_int64_add, exactIn], matchOut, ?_⟩
    cases staked : tx.isCoinStake with
    | true =>
      rw [stake staked, before.nFees]
      simp [TxValues.fee, TxValues.of, staked]
    | false =>
      obtain ⟨out', value', sumFees⟩ := fees staked
      obtain rfl : out = out' := Option.some.inj (value.symm.trans value')
      have fee : (TxValues.of st.view tx).fee = (TxValues.of st.view tx).valueIn - (TxValues.of st.view tx).valueOut := by
        simp [TxValues.fee, TxValues.of, base, staked]
      rw [sumFees, before.nFees, int64_add_int64, int64_int64_add, fee, ← exactOut]
      have shifted := exactIn (nFees - out)
      rw [show nFees + (in_ - out) = nFees - out + in_ by omega, shifted]
      congr 1
      omega

theorem connectTxs_values (free : ∀ tx ∈ txs, tx.containsZerocoins = false) (sound : st.view.Sound)
    (before : st.totals.Match nValueIn nValueOut nFees) (h : connectTxs ctx i st txs = .ok st') :
    st'.view.Sound ∧ (∀ e ∈ blockValues ctx.nHeight st.view txs, e.Nonneg) ∧
      st'.totals.Match (nValueIn + totalIn (blockValues ctx.nHeight st.view txs))
        (nValueOut + totalOut (blockValues ctx.nHeight st.view txs))
        (nFees + totalFees (blockValues ctx.nHeight st.view txs)) ∧
      st'.view.totalUnspent = st.view.totalUnspent - totalIn (blockValues ctx.nHeight st.view txs) +
        totalOut (blockValues ctx.nHeight st.view txs) - totalBurned (blockValues ctx.nHeight st.view txs) ∧
      totalOut (blockValues ctx.nHeight st.view txs) = (txs.map CTransaction.valueOut).sum ∧
      totalBurned (blockValues ctx.nHeight st.view txs) = (txs.map CTransaction.valueBurned).sum := by
  induction txs generalizing i st nValueIn nValueOut nFees with
  | nil =>
    obtain rfl := Except.ok.inj h
    simp [blockValues, totalIn, totalOut, totalFees, totalBurned, sound, before]
  | cons tx txs ih =>
    obtain ⟨mid, first, rest⟩ := Checked.bind_ok h
    have freeTx := free tx (by simp)
    obtain ⟨txundo, connected⟩ := connectTx_ok first
    obtain ⟨_, value, _⟩ := connected.valueOut
    have outputs := (getValueOut_spec value).1
    obtain ⟨sound', nonneg, total⟩ := updateCoins_values sound freeTx connected.pruned outputs connected.update
    obtain ⟨soundLast, nonnegRest, matchRest, totalRest, outRest, burnedRest⟩ :=
      ih (fun t mem => free t (by simp [mem])) sound' (connected.totals_match freeTx before) rest
    have values : blockValues ctx.nHeight st.view (tx :: txs) =
        .of st.view tx :: blockValues ctx.nHeight mid.view txs := by
      simp [blockValues, connected.update]
    rw [values]
    have out : (TxValues.of st.view tx).valueOut = tx.valueOut := rfl
    have burned : (TxValues.of st.view tx).burned = tx.valueBurned := rfl
    simp only [totalIn, totalOut, totalFees, totalBurned, List.map_cons, List.sum_cons, List.mem_cons] at *
    refine ⟨soundLast, ?_, ?_, ?_, ?_, ?_⟩
    · rintro e (rfl | mem)
      · exact nonneg
      · exact nonnegRest e mem
    · simpa only [add_assoc] using matchRest
    · omega
    · omega
    · omega

end SchillingCoin
