import SchillingCoin.Mempool.Removal
import SchillingCoin.Validation.Accepted

/-!
Acceptance of a transaction into the memory pool, after `AcceptToMemoryPool` in `main.cpp` and
`CCoinsViewMemPool` in `txmempool.cpp`.
-/

namespace SchillingCoin

open Checked (refuse)

def MEMPOOL_HEIGHT : Int := 0x7FFFFFFF
def MAX_TX_SIGOPS_CURRENT : Nat := MAX_BLOCK_SIGOPS_CURRENT / 5

structure MempoolPolicy where
  checkFinalTx : CTransaction → Bool
  isStandardTx : CTransaction → Bool
  areInputsStandard : CTransaction → CoinsView → Bool
  verifyStandard : CTransaction → Nat → CTxOut → (cltv : Bool) → Bool
  /-- `mapObfuscationBroadcastTxes` has the transaction. -/
  isObfuscationBroadcast : uint256 → Bool
  getMinRelayFee : CTransaction → Nat → Int
  /-- `minRelayTxFee.GetFee`. -/
  minRelayTxFee : Nat → Int
  relayPriority : Bool
  allowFree : CTransaction → CoinsView → Bool
  rateLimited : CTransaction → Bool

namespace CTxMemPool

variable (p : CTxMemPool) (base : CoinsView)

/-- `CCoinsViewMemPool::GetCoins`: the pool comes first, and pruned entries below it are passed over. -/
def getCoins (txid : uint256) : Option CCoins :=
  match p.mapTx.lookup txid with
  | some entry => some (CCoins.fromTx entry.tx MEMPOOL_HEIGHT)
  | none => (base.accessCoins txid).filter fun coins => !coins.isPruned

def haveCoins (txid : uint256) : Bool :=
  (p.getCoins base txid).any fun coins => !coins.vout.isEmpty

def inputView (tx : CTransaction) : CoinsView where
  coins := tx.vin.foldl (fun coins i =>
    match p.getCoins base i.prevout.hash with
    | none => coins
    | some c => coins.insert i.prevout.hash c) ∅
  hashBlock := base.hashBlock

end CTxMemPool

variable (policy : MempoolPolicy)

/-- The conditions on the fee. The rate limiter is reached by relayed transactions only. -/
def checkFees (network : Network) (view : CoinsView) (tx : CTransaction) (nFees : Int) (nSize : Nat)
    (fLimitFree fRejectInsaneFee ignoreFees : Bool) : Except Reject Unit := do
  if !policy.isObfuscationBroadcast tx.hash && !ignoreFees then
    refuse (fLimitFree && decide (nFees < policy.getMinRelayFee tx nSize)) (.dos 0 "insufficient fee")
    refuse (policy.relayPriority && decide (nFees < policy.minRelayTxFee nSize) && !policy.allowFree tx view)
      (.dos 0 "insufficient priority")
    refuse (fLimitFree && decide (nFees < policy.minRelayTxFee nSize) && policy.rateLimited tx)
      (.dos 0 "rate limited free transaction")
  refuse (fRejectInsaneFee && decide (nFees > policy.minRelayTxFee nSize * 10000)) (.invalid "insane fees")
  refuse (network != .regtest && nFees == 0) (.invalid "zero fees not accepted")

/-- `AcceptToMemoryPool` with `pcoinsTip` as `base`: the pool with the transaction. -/
def acceptToMemoryPool (s : ChainState) (checks : Checks) (policy : MempoolPolicy) (base : CoinsView) (pool : CTxMemPool)
    (tx : CTransaction) (fLimitFree fRejectInsaneFee ignoreFees : Bool) : Except Reject CTxMemPool := do
  refuse (s.isSporkActive .zerocoinMaintenanceMode && tx.containsZerocoins) (.dos 10 "bad-tx")
  let chainHeight : Int := (s.tip.map fun tip => (tip.nHeight : Int)).getD (-1)
  checkTransaction checks s.network tx (decide (chainHeight ≥ s.network.consensus.height_start_ZC))
    (s.isSporkActive .coldStakingEnforcement)
  refuse tx.isCoinBase (.dos 100 "coinbase")
  refuse tx.isCoinStake (.dos 100 "coinstake")
  refuse (!policy.checkFinalTx tx) (.dos 0 "non-final")
  refuse (s.network != .regtest && !policy.isStandardTx tx) (.dos 0 "nonstandard transaction")
  refuse (pool.exists_ tx.hash) (.invalid "tx already in mempool")
  refuse (tx.vin.any fun i => (s.mapLockedInputs.lookup i.prevout).any fun locked => locked != tx.hash)
    (.dos 0 "tx-lock-conflict")
  refuse (tx.vin.any fun i => (pool.mapNextTx.lookup i.prevout).isSome) (.invalid "")
  refuse (pool.haveCoins base tx.hash) (.invalid "")
  refuse (tx.vin.any fun i => !pool.haveCoins base i.prevout.hash) (.invalid "")
  let view := pool.inputView base tx
  refuse (!view.haveInputs tx) (.invalid "bad-txns-inputs-spent")
  let nValueIn ← orAbort "GetOutputFor" (view.getValueIn tx)
  refuse (s.network != .regtest && !policy.areInputsStandard tx view) (.invalid "nonstandard transaction input")
  let nSigOps := checks.getLegacySigOpCount tx + (tx.vin.map fun i =>
    let out := (view.coinsAt i.prevout.hash).outputAt i.prevout.n
    if CScript.isPayToScriptHash out.scriptPubKey then checks.p2shSigOps i out else 0).sum
  refuse (decide (nSigOps > MAX_TX_SIGOPS_CURRENT)) (.dos 0 "bad-txns-too-many-sigops")
  let nValueOut ← orAbort "GetValueOut" tx.getValueOut
  let nSize := checks.txSize tx
  checkFees policy s.network view tx (int64 (nValueIn - nValueOut)) nSize fLimitFree fRejectInsaneFee ignoreFees
  let fCLTVIsActivated := decide (chainHeight ≥ s.network.consensus.height_start_BIP65)
  checkInputs s { checks with verifyScript := policy.verifyStandard } view tx true fCLTVIsActivated
  checkInputs s checks view tx true fCLTVIsActivated
  return pool.addUnchecked tx.hash { tx, nTxSize := nSize }

/-- `AcceptableInputs`, a trial of the checks for a transaction that is not added. Scripts are not run. -/
def acceptableInputs (s : ChainState) (checks : Checks) (policy : MempoolPolicy) (base : CoinsView) (pool : CTxMemPool)
    (tx : CTransaction) (fLimitFree fRejectInsaneFee isDSTX : Bool) : Except Reject Unit := do
  let chainHeight : Int := (s.tip.map fun tip => (tip.nHeight : Int)).getD (-1)
  checkTransaction checks s.network tx (decide (chainHeight ≥ s.network.consensus.height_start_ZC)) false
  refuse tx.isCoinBase (.dos 100 "coinbase")
  refuse (pool.exists_ tx.hash) (.invalid "")
  refuse (tx.vin.any fun i => (s.mapLockedInputs.lookup i.prevout).any fun locked => locked != tx.hash)
    (.dos 0 "tx-lock-conflict")
  refuse (!tx.hasZerocoinSpendInputs && tx.vin.any fun i => (pool.mapNextTx.lookup i.prevout).isSome) (.invalid "")
  refuse (pool.haveCoins base tx.hash) (.invalid "")
  refuse (tx.vin.any fun i => !pool.haveCoins base i.prevout.hash) (.invalid "")
  let view := pool.inputView base tx
  refuse (!view.haveInputs tx) (.invalid "bad-txns-inputs-spent")
  let nValueIn ← orAbort "GetOutputFor" (view.getValueIn tx)
  let nSigOps := checks.getLegacySigOpCount tx + (tx.vin.map fun i =>
    let out := (view.coinsAt i.prevout.hash).outputAt i.prevout.n
    if CScript.isPayToScriptHash out.scriptPubKey then checks.p2shSigOps i out else 0).sum
  refuse (decide (nSigOps > MAX_TX_SIGOPS_CURRENT)) (.dos 0 "bad-txns-too-many-sigops")
  let nValueOut ← orAbort "GetValueOut" tx.getValueOut
  let nSize := checks.txSize tx
  let nFees := int64 (nValueIn - nValueOut)
  refuse (!isDSTX && fLimitFree && decide (nFees < policy.getMinRelayFee tx nSize) && !tx.hasZerocoinSpendInputs)
    (.dos 0 "insufficient fee")
  refuse (!isDSTX && policy.relayPriority && decide (nFees < policy.minRelayTxFee nSize) && !policy.allowFree tx view)
    (.dos 0 "insufficient priority")
  refuse (!isDSTX && fLimitFree && decide (nFees < policy.minRelayTxFee nSize) && !tx.hasZerocoinSpendInputs &&
    policy.rateLimited tx) (.dos 0 "rate limited free transaction")
  refuse (fRejectInsaneFee && decide (nFees > policy.minRelayTxFee nSize * 10000)) (.invalid "insane fees")
  let tip ← orAbort "chainActive.Tip()" s.tip
  checkInputs s checks view tx false (decide (tip.nHeight ≥ s.network.consensus.height_start_BIP65))

namespace CTxMemPool

variable {p : CTxMemPool}

theorem getCoins_unpooled (absent : p.exists_ t = false) (base : CoinsView) :
    p.getCoins base t = if (base.coinsAt t).isPruned then none else some (base.coinsAt t) := by
  have unpooled : p.mapTx.lookup t = none := by simpa [CTxMemPool.exists_] using absent
  rw [getCoins, unpooled]
  unfold CoinsView.accessCoins CoinsView.coinsAt
  cases base.coins.lookup t with
  | none => rfl
  | some c => cases pruned : c.isPruned <;> simp [pruned]

theorem lookup_fetchInputs (vin : List CTxIn) (coins : StdMap uint256 CCoins)
    (sound : coins.lookup t = none ∨ coins.lookup t = p.getCoins base t) :
    (vin.foldl (fun coins i =>
      match p.getCoins base i.prevout.hash with
      | none => coins
      | some c => coins.insert i.prevout.hash c) coins).lookup t =
    if t ∈ vin.map fun i => i.prevout.hash then p.getCoins base t else coins.lookup t := by
  induction vin generalizing coins with
  | nil => simp
  | cons i vin ih =>
    rw [List.foldl_cons, List.map_cons]
    by_cases here : t = i.prevout.hash
    · subst here
      cases found : p.getCoins base i.prevout.hash with
      | none =>
        rw [found, or_self] at sound
        rw [ih coins (Or.inl sound), found, sound]
        simp
      | some c =>
        have added : (coins.insert i.prevout.hash c).lookup i.prevout.hash = p.getCoins base i.prevout.hash := by
          rw [StdMap.lookup_insert_ite, if_pos rfl, found]
        rw [ih _ (Or.inr added), added, found]
        simp
    · cases found : p.getCoins base i.prevout.hash with
      | none =>
        rw [ih coins sound]
        simp [here]
      | some c =>
        have kept : (coins.insert i.prevout.hash c).lookup t = coins.lookup t := by
          rw [StdMap.lookup_insert_ite, if_neg here]
        rw [ih _ (kept ▸ sound), kept]
        simp [here]

theorem lookup_inputView (mem : i ∈ tx.vin) :
    (p.inputView base tx).coins.lookup i.prevout.hash = p.getCoins base i.prevout.hash := by
  rw [inputView, lookup_fetchInputs tx.vin ∅ (Or.inl (by simp)), if_pos (List.mem_map.mpr ⟨i, mem, rfl⟩)]

def Offers (tx : CTransaction) (n : Nat) : Prop := (CCoins.fromTx tx MEMPOOL_HEIGHT).isAvailable n = true

/-- What `AcceptToMemoryPool` has checked of the transaction it adds, as far as the pool depends on it. -/
structure Acceptable (p : CTxMemPool) (base : CoinsView) (tx : CTransaction) : Prop where
  notCoinBase : tx.isCoinBase = false
  notCoinStake : tx.isCoinStake = false
  absent : p.exists_ tx.hash = false
  unspent : ∀ o ∈ tx.prevouts, p.mapNextTx.lookup o = none
  distinct : checkDuplicateInputs [] tx.vin = .ok ()
  found : ∀ i ∈ tx.vin, p.haveCoins base i.prevout.hash = true
  available : (p.inputView base tx).haveInputs tx = true

end CTxMemPool

variable {tx : CTransaction}

theorem acceptToMemoryPool_ok {s : ChainState} {checks : Checks} {policy : MempoolPolicy} {base : CoinsView}
    {pool pool' : CTxMemPool} {fLimitFree fRejectInsaneFee ignoreFees : Bool}
    (h : acceptToMemoryPool s checks policy base pool tx fLimitFree fRejectInsaneFee ignoreFees = .ok pool') :
    pool.Acceptable base tx ∧ pool' = pool.addUnchecked tx.hash { tx, nTxSize := checks.txSize tx } := by
  obtain ⟨_, h⟩ := Checked.after_refuse h
  obtain ⟨_, checked, h⟩ := Checked.bind_ok h
  obtain ⟨base_, h⟩ := Checked.after_refuse h
  obtain ⟨stake, h⟩ := Checked.after_refuse h
  obtain ⟨_, h⟩ := Checked.after_refuse h
  obtain ⟨_, h⟩ := Checked.after_refuse h
  obtain ⟨absent, h⟩ := Checked.after_refuse h
  obtain ⟨_, h⟩ := Checked.after_refuse h
  obtain ⟨conflicts, h⟩ := Checked.after_refuse h
  obtain ⟨_, h⟩ := Checked.after_refuse h
  obtain ⟨found, h⟩ := Checked.after_refuse h
  obtain ⟨available, h⟩ := Checked.after_refuse h
  obtain ⟨_, _, h⟩ := Checked.bind_ok h
  obtain ⟨_, h⟩ := Checked.after_refuse h
  obtain ⟨_, h⟩ := Checked.after_refuse h
  obtain ⟨_, _, h⟩ := Checked.bind_ok h
  obtain ⟨_, _, h⟩ := Checked.bind_ok h
  obtain ⟨_, _, h⟩ := Checked.bind_ok h
  obtain ⟨_, _, h⟩ := Checked.bind_ok h
  obtain rfl := Except.ok.inj h
  refine ⟨⟨base_, stake, absent, fun o mem => ?_, ?_, by simpa using found, by simpa using available⟩, rfl⟩
  · obtain ⟨i, input, rfl⟩ := List.mem_map.mp mem
    have free : ∀ i ∈ tx.vin, pool.mapNextTx.lookup i.prevout = none := by simpa using conflicts
    exact free i input
  · obtain ⟨_, checked⟩ := Checked.after_refuse checked
    obtain ⟨_, checked⟩ := Checked.after_refuse checked
    obtain ⟨_, checked⟩ := Checked.after_refuse checked
    obtain ⟨_, _, checked⟩ := Checked.bind_ok checked
    obtain ⟨_, distinct, _⟩ := Checked.bind_ok checked
    exact distinct

namespace CTxMemPool

variable {p : CTxMemPool} {base : CoinsView} {tx : CTransaction}

theorem Acceptable.spendFree (acceptable : p.Acceptable base tx) (noPooled : p.exists_ 0 = false)
    (noCoins : (base.coinsAt 0).isPruned = true) : tx.hasZerocoinSpendInputs = false := by
  rw [CTransaction.hasZerocoinSpendInputs, List.any_eq_false]
  intro i mem spend
  simp only [CTxIn.isZerocoinSpend, Bool.and_eq_true, beq_iff_eq] at spend
  have found := acceptable.found i mem
  rw [spend.1, haveCoins, getCoins_unpooled noPooled, noCoins] at found
  cases found

theorem Acceptable.addable (acceptable : p.Acceptable base tx)
    (spendFree : tx.hasZerocoinSpendInputs = false) : p.Addable tx :=
  ⟨spendFree, by simpa [CTxMemPool.exists_] using acceptable.absent, acceptable.unspent, acceptable.distinct⟩

theorem Acceptable.inputs (acceptable : p.Acceptable base tx) (exact_ : p.Exact) (spendFree : tx.hasZerocoinSpendInputs = false)
    (mem : o ∈ tx.prevouts) :
    base.isOutputAvailable o = true ∨ ∃ parent, p.Holds parent ∧ parent.hash = o.hash ∧ Offers parent o.n := by
  have spends := CTransaction.spendsCoins_iff.mpr ⟨acceptable.notCoinBase, spendFree⟩
  have here := CoinsView.available_of_haveInputs spends acceptable.available o mem
  obtain ⟨i, input, rfl⟩ := List.mem_map.mp mem
  rw [CoinsView.isOutputAvailable, CoinsView.coinsAt, lookup_inputView input] at here
  cases pooled : p.exists_ i.prevout.hash with
  | true =>
    obtain ⟨entry, at_⟩ := exists_iff.mp pooled
    rw [getCoins, at_] at here
    exact Or.inr ⟨entry.tx, exact_.holds at_, exact_.keyed _ _ at_, here⟩
  | false =>
    refine Or.inl ?_
    rw [getCoins_unpooled pooled] at here
    split at here
    · simp [CCoins.isAvailable] at here
    · exact here

end CTxMemPool

theorem checkFee_single (vout : tx.vout = [out]) (total : checkInputCoins network view nSpendHeight 0 [i] = .ok nValueIn)
    (fee : checkFee network tx nValueIn = .ok ()) :
    out.nValue ≤ ((view.coinsAt i.prevout.hash).outputAt i.prevout.n).nValue := by
  have ordinary : tx.isCoinStake = false := by
    unfold CTransaction.isCoinStake
    rw [vout]
    cases tx.vin <;> simp
  unfold checkFee at fee
  rw [if_neg (by simp [ordinary])] at fee
  obtain ⟨nValueOut, value, fee⟩ := Checked.bind_ok fee
  obtain ⟨enough, _⟩ := Checked.after_refuse fee
  obtain ⟨_, sum, _⟩ := getValueOut_spec (orAbort_ok value)
  rw [vout] at sum
  simp only [List.map_cons, List.map_nil, List.sum_cons, List.sum_nil] at sum
  obtain ⟨_, range⟩ := checkInputCoins_ok total i List.mem_cons_self
  have bounds : ∀ network : Network, network.consensus.nMaxMoneyOut < 2 ^ 63 := by
    intro network
    cases network <;> decide
  have bound := bounds network
  simp only [Consensus.Params.moneyRange, Bool.and_eq_true, decide_eq_true_eq] at range
  unfold checkInputCoins at total
  simp only [checkInputCoins] at total
  split at total
  · cases total
  · split at total
    · cases total
    · obtain rfl := Except.ok.inj total
      have exact_ : int64 (0 + ((view.coinsAt i.prevout.hash).outputAt i.prevout.n).nValue) =
          ((view.coinsAt i.prevout.hash).outputAt i.prevout.n).nValue := by
        rw [Int.zero_add]
        exact Int.bmod_eq_of_le (by omega) (by omega)
      unfold CCoins.outputAt at exact_ ⊢
      rw [exact_] at enough
      have enough' := of_decide_eq_false enough
      omega

theorem acceptableInputs_ok {s : ChainState} {checks : Checks} {policy : MempoolPolicy} {base : CoinsView}
    {pool : CTxMemPool} {i : CTxIn} {out : CTxOut} {fLimitFree fRejectInsaneFee isDSTX : Bool}
    (vin : tx.vin = [i]) (vout : tx.vout = [out]) (plain : i.scriptSig = [])
    (h : acceptableInputs s checks policy base pool tx fLimitFree fRejectInsaneFee isDSTX = .ok ()) :
    ∃ coins, pool.getCoins base i.prevout.hash = some coins ∧ coins.isAvailable i.prevout.n = true ∧
      out.nValue ≤ (coins.outputAt i.prevout.n).nValue := by
  obtain ⟨_, _, h⟩ := Checked.bind_ok h
  obtain ⟨base_, h⟩ := Checked.after_refuse h
  obtain ⟨_, h⟩ := Checked.after_refuse h
  obtain ⟨_, h⟩ := Checked.after_refuse h
  obtain ⟨_, h⟩ := Checked.after_refuse h
  obtain ⟨_, h⟩ := Checked.after_refuse h
  obtain ⟨_, h⟩ := Checked.after_refuse h
  obtain ⟨_, h⟩ := Checked.after_refuse h
  obtain ⟨_, _, h⟩ := Checked.bind_ok h
  obtain ⟨_, h⟩ := Checked.after_refuse h
  obtain ⟨_, _, h⟩ := Checked.bind_ok h
  obtain ⟨_, h⟩ := Checked.after_refuse h
  obtain ⟨_, h⟩ := Checked.after_refuse h
  obtain ⟨_, h⟩ := Checked.after_refuse h
  obtain ⟨_, h⟩ := Checked.after_refuse h
  obtain ⟨_, _, h⟩ := Checked.bind_ok h
  have spendFree : tx.hasZerocoinSpendInputs = false := by
    simp [CTransaction.hasZerocoinSpendInputs, vin, CTxIn.isZerocoinSpend, plain, CScript.isZerocoinSpend,
      CScript.startsWithOpcode]
  obtain ⟨available, pindexPrev, nValueIn, _, total, fee⟩ := checkInputs_ok (by rw [base_, spendFree]; rfl) h
  rw [vin] at total
  have worth := checkFee_single vout total fee
  have here : ((pool.inputView base tx).coinsAt i.prevout.hash).isAvailable i.prevout.n = true := by
    simpa [CoinsView.haveInputs, base_, spendFree, vin, CoinsView.isOutputAvailable] using available
  have same : (pool.inputView base tx).coins.lookup i.prevout.hash = pool.getCoins base i.prevout.hash :=
    CTxMemPool.lookup_inputView (by rw [vin]; exact List.mem_cons_self)
  unfold CoinsView.coinsAt at here worth
  rw [same] at here worth
  cases found : pool.getCoins base i.prevout.hash with
  | none =>
    rw [found] at here
    simp [CCoins.isAvailable] at here
  | some coins =>
    rw [found] at here worth
    exact ⟨coins, rfl, here, worth⟩

end SchillingCoin
