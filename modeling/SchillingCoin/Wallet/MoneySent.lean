import SchillingCoin.Wallet.CreateTransaction

/-!
`CreateTransaction` neither loses nor invents money: its loop ends, and a transaction that it creates spends the selected
coins, pays every recipient, and leaves the rest to one change output and the fee.
-/

namespace SchillingCoin

def paidOut (vout : List CTxOut) : Int := (vout.map CTxOut.nValue).sum

theorem paidOut_append (vout vout' : List CTxOut) : paidOut (vout ++ vout') = paidOut vout + paidOut vout' := by
  simp [paidOut]

theorem paidOut_cons (out : CTxOut) (vout : List CTxOut) : paidOut (out :: vout) = out.nValue + paidOut vout := by
  simp [paidOut]

structure Pays (parts : Nat) (recipient : CScript × Int) (outs : List CTxOut) : Prop where
  parts : outs.length = parts
  script : ∀ out ∈ outs, out.scriptPubKey = recipient.1
  amount : paidOut outs = recipient.2

namespace SendRequest

def parts (req : SendRequest) : Nat :=
  match req.coinControl with
  | none => 1
  | some coinControl => if coinControl.fSplitBlock then coinControl.nSplitBlock.toNat else 1

theorem splitAmount_pays {nSplitBlock : Int} (split : 1 ≤ nSplitBlock) (s : CScript × Int) :
    Pays nSplitBlock.toNat s (splitAmount nSplitBlock s) := by
  obtain ⟨k, isSplit⟩ : ∃ k : Nat, nSplitBlock = k + 1 := ⟨(nSplitBlock - 1).toNat, by omega⟩
  have parts : nSplitBlock.toNat = k + 1 := by omega
  refine ⟨by simp [splitAmount], ?_, ?_⟩
  · intro out member
    obtain ⟨i, _, rfl⟩ := List.mem_map.mp member
    rfl
  · -- All parts but the last are equal.
    have equal : (List.range k).map (fun i => (splitPart nSplitBlock s i).nValue) =
        (List.range k).map fun _ => s.2.tdiv nSplitBlock := by
      apply List.map_congr_left
      intro i inside
      have less := List.mem_range.mp inside
      show s.2.tdiv nSplitBlock + (if (i : Int) = nSplitBlock - 1 then s.2.tmod nSplitBlock else 0) = _
      rw [if_neg (by omega), add_zero]
    have last : (splitPart nSplitBlock s k).nValue = s.2.tdiv nSplitBlock + s.2.tmod nSplitBlock := by
      show s.2.tdiv nSplitBlock + (if (k : Int) = nSplitBlock - 1 then s.2.tmod nSplitBlock else 0) = _
      rw [if_pos (by omega)]
    have division := Int.mul_tdiv_add_tmod s.2 nSplitBlock
    unfold splitAmount paidOut
    rw [parts, List.range_succ, List.map_append, List.map_append, List.sum_append, List.map_map, Function.comp_def, equal, List.map_const',
      List.length_range, List.sum_replicate, List.map_singleton, List.map_singleton, List.sum_singleton, last]
    calc k • s.2.tdiv nSplitBlock + (s.2.tdiv nSplitBlock + s.2.tmod nSplitBlock)
        = nSplitBlock * s.2.tdiv nSplitBlock + s.2.tmod nSplitBlock := by
          rw [isSplit, nsmul_eq_mul]
          ring
      _ = s.2 := division

theorem payees_paid {req : SendRequest}
    (split : ∀ coinControl, req.coinControl = some coinControl → 1 ≤ coinControl.nSplitBlock)
    (found : req.payees minRelayTxFee = some vout) :
    ∃ payments, List.Forall₂ (Pays req.parts) req.vecSend payments ∧ vout = payments.flatten := by
  unfold payees at found
  split at found
  · rename_i whole
    simp only at found
    split at found
    · cases found
    · cases found
      obtain ⟨coinControl, isControl, unsplit⟩ := Option.any_eq_true _ _ |>.mp whole
      have one : req.parts = 1 := by
        simp only [parts, isControl]
        rw [if_neg (by simpa using unsplit)]
      refine ⟨req.vecSend.map fun s => [{ nValue := s.2, scriptPubKey := s.1 }], ?_, ?_⟩
      · rw [List.forall₂_map_right_iff, List.forall₂_same]
        intro s _
        exact ⟨one.symm, by simp, by simp [paidOut]⟩
      · rw [← List.flatMap_def, List.map_eq_flatMap]
  · rename_i notWhole
    cases found
    refine ⟨req.vecSend.map (splitAmount req.nSplitBlock), ?_, by rw [← List.flatMap_def]⟩
    rw [List.forall₂_map_right_iff, List.forall₂_same]
    intro s _
    have same : req.parts = req.nSplitBlock.toNat ∧ 1 ≤ req.nSplitBlock := by
      unfold parts nSplitBlock
      cases isControl : req.coinControl with
      | none => exact ⟨rfl, le_rfl⟩
      | some coinControl =>
        have isSplit : coinControl.fSplitBlock = true := by simpa [isControl] using notWhole
        exact ⟨if_pos isSplit, split coinControl isControl⟩
    rw [same.1]
    exact splitAmount_pays same.2 s

theorem totalAmount_eq {req : SendRequest} (found : req.totalAmount = some nValue) :
    nValue = (req.vecSend.map Prod.snd).sum := by
  have loop : ∀ (vecSend : List (CScript × Int)) (start total : Int),
      vecSend.foldlM (fun nValue s => if nValue < 0 then none else some (nValue + s.2)) start = some total →
        total = start + (vecSend.map Prod.snd).sum := by
    intro vecSend
    induction vecSend with
    | nil =>
      intro start total same
      cases same
      simp
    | cons s rest ih =>
      intro start total same
      rw [List.foldlM_cons] at same
      split at same
      · cases same
      · have later := ih _ _ same
        simp only [List.map_cons, List.sum_cons]
        omega
  unfold totalAmount at found
  split at found
  · cases found
  · rename_i total sum
    have added := loop _ _ _ sum
    split at found
    · cases found
    · cases found
      omega

theorem paidOut_payments {vecSend : List (CScript × Int)} (paid : List.Forall₂ (Pays n) vecSend payments) :
    paidOut payments.flatten = (vecSend.map Prod.snd).sum := by
  induction paid with
  | nil => rfl
  | cons pays _ ih =>
    rw [List.flatten_cons, paidOut_append, pays.amount, ih]
    simp

end SendRequest

/-- The outputs with the change: there is none, an output with the script of the change is larger by it, or it has an output
of its own that is not dust. -/
inductive ChangePaid (minRelayTxFee : CFeeRate) (changeScript : Option CScript) (paid : List CTxOut) : List CTxOut → Prop
  | none : ChangePaid minRelayTxFee changeScript paid paid
  | merged (before after : List CTxOut) (out : CTxOut) (nChange : Int) (here : paid = before ++ out :: after)
      (script : changeScript = some out.scriptPubKey) (positive : 0 < nChange) :
      ChangePaid minRelayTxFee changeScript paid (before ++ { out with nValue := out.nValue + nChange } :: after)
  | further (before after : List CTxOut) (change : CTxOut) (here : paid = before ++ after) (positive : 0 < change.nValue)
      (notDust : change.isDust minRelayTxFee = false) : ChangePaid minRelayTxFee changeScript paid (before ++ change :: after)

theorem addToPayee_merged (found : addToPayee scriptChange nChange vout = some vout') :
    ∃ before out after, vout = before ++ out :: after ∧ out.scriptPubKey = scriptChange ∧
      vout' = before ++ { out with nValue := out.nValue + nChange } :: after := by
  induction vout generalizing vout' with
  | nil => cases found
  | cons out rest ih =>
    unfold addToPayee at found
    split at found
    · rename_i same
      cases found
      exact ⟨[], out, rest, rfl, same.symm, rfl⟩
    · obtain ⟨rest', later, rfl⟩ := Option.map_eq_some_iff.mp found
      obtain ⟨before, out', after, rfl, script, rfl⟩ := ih later
      exact ⟨out :: before, out', after, rfl, script, rfl⟩

theorem insertIdx_between (change : CTxOut) (vout : List CTxOut) (inside : i ≤ vout.length) :
    ∃ before after, vout = before ++ after ∧ vout.insertIdx i change = before ++ change :: after := by
  induction vout generalizing i with
  | nil =>
    obtain rfl : i = 0 := Nat.le_zero.mp inside
    exact ⟨[], [], rfl, rfl⟩
  | cons out rest ih =>
    cases i with
    | zero => exact ⟨[], out :: rest, rfl, rfl⟩
    | succ i =>
      obtain ⟨before, after, here, insertion⟩ := ih (Nat.le_of_succ_le_succ inside)
      refine ⟨out :: before, after, by rw [here]; rfl, ?_⟩
      rw [List.insertIdx_succ_cons, insertion]
      rfl

namespace SendContext

structure ChangePlaced (env : SendContext) (req : SendRequest) (vout : List CTxOut) (nChange : Int) (d : Draft)
    (placed : List CTxOut × Draft) : Prop where
  form : ChangePaid env.fees.minRelayTxFee req.changeScript vout placed.1
  balance : paidOut placed.1 + placed.2.nFeeRet = paidOut vout + nChange + d.nFeeRet
  fee : d.nFeeRet ≤ placed.2.nFeeRet
  round : placed.2.round = d.round

variable {env : SendContext} {req : SendRequest} {luck : RoundLuck} {vout : List CTxOut} {nChange : Int} {d : Draft}

theorem insertChange_placed (positive : 0 < nChange) (scriptChange : CScript) :
    ChangePlaced env req vout nChange d (insertChange env req luck vout nChange scriptChange d) := by
  unfold insertChange
  simp only
  split
  · refine ⟨ChangePaid.none, ?_, ?_, rfl⟩
    · simp only
      omega
    · simp only
      omega
  · rename_i notDust
    obtain ⟨i, inside⟩ := luck.getRandInt vout.length
    obtain ⟨before, after, rfl, insertion⟩ := insertIdx_between { nValue := nChange, scriptPubKey := scriptChange } vout
      (Nat.le_of_lt_succ inside)
    refine ⟨?_, ?_, le_rfl, rfl⟩
    · rw [insertion]
      exact ChangePaid.further before after _ rfl positive (by simpa using notDust)
    · rw [insertion, paidOut_append, paidOut_cons, paidOut_append]
      simp only
      omega

theorem placeChange_placed (enough : 0 ≤ nChange) (found : placeChange env req luck vout nChange d = .ok placed) :
    ChangePlaced env req vout nChange d placed := by
  unfold placeChange at found
  split at found
  · rename_i positive
    split at found
    · rename_i scriptChange isScript
      split at found
      · rename_i merged added
        cases found
        obtain ⟨before, out, after, rfl, script, rfl⟩ := addToPayee_merged added
        refine ⟨ChangePaid.merged before after out nChange rfl (isScript.trans (congrArg some script.symm)) positive, ?_, le_rfl, rfl⟩
        simp only [paidOut_append, paidOut_cons]
        omega
      · cases found
        exact insertChange_placed positive scriptChange
    · split at found
      · cases found
      · rename_i vchPubKey pool _
        cases found
        have placed : ChangePlaced env req vout nChange { d with pool := pool } (insertChange env req luck vout nChange
          (getScriptForDestination (env.getID vchPubKey)) { d with pool := pool }) := insertChange_placed positive _
        exact ⟨placed.form, placed.balance, placed.fee, placed.round⟩
  · cases found
    refine ⟨ChangePaid.none, ?_, le_rfl, rfl⟩
    simp only
    omega

theorem prevouts_modify (vin : List CTxIn) (nIn : Nat) (scriptSig : CScript) :
    (vin.modify nIn fun txin => { txin with scriptSig := scriptSig }).map CTxIn.prevout = vin.map CTxIn.prevout := by
  induction vin generalizing nIn with
  | nil => cases nIn <;> rfl
  | cons txin rest ih =>
    cases nIn with
    | zero => rfl
    | succ nIn =>
      rw [List.modify_succ_cons, List.map_cons, List.map_cons, ih]

theorem signInputs_keeps (signed : env.signInputs coins nIn txNew = some tx) :
    tx.vin.map CTxIn.prevout = txNew.vin.map CTxIn.prevout ∧ tx.vout = txNew.vout := by
  induction coins generalizing nIn txNew with
  | nil =>
    cases signed
    exact ⟨rfl, rfl⟩
  | cons coin rest ih =>
    unfold signInputs at signed
    split at signed
    · cases signed
    · obtain ⟨prevouts, outs⟩ := ih signed
      exact ⟨prevouts.trans (prevouts_modify ..), outs⟩

structure Sent (env : SendContext) (w : KeyedWallet) (req : SendRequest) (luck : Nat → RoundLuck) (d : Draft) (coins : List Coin)
    (payments : List (List CTxOut)) : Prop where
  /-- The coins are those that the last round selects for the amount and its fee, to which dust may be added. -/
  selected : ∃ round nValue nFee sel, d.round = round + 1 ∧ req.totalAmount = some nValue ∧ 0 ≤ nFee ∧ nFee ≤ d.nFeeRet ∧
    w.selectCoins env.toSpendContext (luck round).selection req.choice (nValue + nFee) = some sel ∧
    coins = (luck round).order sel.setCoins
  held : ∀ coin ∈ coins, w.mapWallet.lookup coin.1.getHash = some coin.1 ∧ coin.2 < coin.1.tx.vout.length
  inputs : d.wtxNew.tx.vin.map CTxIn.prevout = coins.map Coin.outpoint
  once : (d.wtxNew.tx.vin.map CTxIn.prevout).Nodup
  balance : (coins.map fun coin => coin.txOut.nValue).sum = paidOut d.wtxNew.tx.vout + d.nFeeRet
  fee : 0 ≤ d.nFeeRet
  recipients : List.Forall₂ (Pays req.parts) req.vecSend payments
  change : ChangePaid env.fees.minRelayTxFee req.changeScript payments.flatten d.wtxNew.tx.vout
  covers : env.sendsFree coins d.wtxNew.tx = true ∨
    max req.feePay (env.fees.getMinimumFee d.wtxNew.tx.getSerializeSize) ≤ d.nFeeRet

def EndMeets (env : SendContext) (w : KeyedWallet) (req : SendRequest) (luck : Nat → RoundLuck) : SendEnding → Prop
  | .created d => ∃ coins payments, Sent env w req luck d coins payments
  | .aborted .age => False
  | _ => True

def RoundMeets (env : SendContext) (w : KeyedWallet) (req : SendRequest) (luck : Nat → RoundLuck) (nFee : Int) :
    Draft ⊕ SendEnding → Prop
  | .inl d => nFee < d.nFeeRet ∧ d.nFeeRet ≤ max req.feePay env.fees.maxTxFee
  | .inr ending => EndMeets env w req luck ending

variable {w : KeyedWallet} {lucks : Nat → RoundLuck}

theorem checkFee_meets (grown : nFee ≤ d.nFeeRet)
    (sent : (env.sendsFree coins d.wtxNew.tx = true ∨ max req.feePay (env.fees.getMinimumFee d.wtxNew.tx.getSerializeSize) ≤ d.nFeeRet) → ∃ coins payments, Sent env w req lucks d coins payments) :
    RoundMeets env w req lucks nFee (checkFee env req coins d) := by
  unfold checkFee
  simp only
  split
  · trivial
  · split
    · rename_i free
      exact sent (Or.inl free)
    · split
      · trivial
      · split
        · rename_i enough
          exact sent (Or.inr enough)
        · rename_i more
          have limit := env.fees.getMinimumFee_le d.wtxNew.tx.getSerializeSize
          constructor
          · show nFee < max _ _
            omega
          · show max _ _ ≤ max _ _
            omega

theorem held_coin (selected : CWallet.Selected env.toSpendContext w.toCWallet req.choice nTargetValue sel)
    (member : coin ∈ sel.setCoins) :
    w.mapWallet.lookup coin.1.getHash = some coin.1 ∧ coin.2 < coin.1.tx.vout.length ∧
      0 ≤ coin.1.getDepthInMainChain env.toWalletContext := by
  obtain ⟨out, offered, rfl⟩ := selected.offered coin member
  obtain ⟨⟨wtxid, found⟩, inside, available⟩ := CWallet.held_of_available offered
  obtain ⟨nDepth, isDepth⟩ := Option.isSome_iff_exists.mp available
  refine ⟨?_, inside, CWalletTx.depth_of_isTrusted (isTrusted_of_available isDepth)⟩
  have key : out.tx.getHash = wtxid := w.keyed wtxid out.tx found
  show w.mapWallet.lookup out.tx.getHash = some out.tx
  rw [key]
  exact found

theorem once_spent (selected : CWallet.Selected env.toSpendContext w.toCWallet req.choice nTargetValue sel) {coins : List Coin}
    (once : coins.Nodup) (same : coins.toFinset = sel.setCoins) : (coins.map Coin.outpoint).Nodup := by
  apply List.Nodup.map_on _ once
  intro coin member coin' member' sameOutpoint
  obtain ⟨out, offered, rfl⟩ := selected.offered coin (same ▸ List.mem_toFinset.mpr member)
  obtain ⟨out', offered', rfl⟩ := selected.offered coin' (same ▸ List.mem_toFinset.mpr member')
  exact w.outpoint_injective offered offered' sameOutpoint

theorem placeChange_not_age (stopped : placeChange env req luck vout nChange d = .error why) : why ≠ .age := by
  unfold placeChange at stopped
  split at stopped
  · split at stopped
    · split at stopped
      · cases stopped
      · cases stopped
    · split at stopped
      · rename_i reserved
        cases stopped
        unfold reserveChangeKey at reserved
        rintro rfl
        split at reserved
        · cases reserved
        · split at reserved
          · cases reserved
          · cases reserved
      · cases stopped
  · cases stopped

theorem overpay_keeps (req : SendRequest) (enough : 0 ≤ nChange) (d : Draft) :
    0 ≤ (overpay req nChange d).2 ∧ (overpay req nChange d).2 + (overpay req nChange d).1.nFeeRet = nChange + d.nFeeRet ∧
      d.nFeeRet ≤ (overpay req nChange d).1.nFeeRet ∧ (overpay req nChange d).1.round = d.round := by
  unfold overpay
  split
  · refine ⟨le_rfl, ?_, ?_, rfl⟩
    · simp only
      omega
    · simp only
      omega
  · exact ⟨enough, rfl, le_rfl, rfl⟩

theorem spendCoins_meets {round : Nat}
    (found : w.selectCoins env.toSpendContext (lucks round).selection req.choice (nValue + d.nFeeRet) = some sel)
    (now : d.round = round + 1) (amount : req.totalAmount = some nValue) (fee : 0 ≤ d.nFeeRet)
    (recipients : List.Forall₂ (Pays req.parts) req.vecSend payments) (total : nValue = paidOut payments.flatten) :
    RoundMeets env w req lucks d.nFeeRet (spendCoins env req (lucks round) nValue payments.flatten sel d) := by
  have selected := CWallet.selectCoins_selected found
  obtain ⟨coins, isCoins⟩ : ∃ coins, coins = (lucks round).order sel.setCoins := ⟨_, rfl⟩
  have once : coins.Nodup := isCoins ▸ (lucks round).nodup_order sel.setCoins
  have same : coins.toFinset = sel.setCoins := isCoins ▸ (lucks round).toFinset_order sel.setCoins
  have held : ∀ coin ∈ coins, _ := fun coin member => held_coin selected (same ▸ List.mem_toFinset.mpr member)
  have noneYoung : ¬ (coins.any fun coin => decide (coin.1.getDepthInMainChain env.toWalletContext < 0)) = true := by
    intro young
    obtain ⟨coin, member, negative⟩ := List.any_eq_true.mp young
    have depth := (held coin member).2.2
    have below := of_decide_eq_true negative
    omega
  have enough := selected.enough
  unfold spendCoins
  rw [← isCoins]
  simp only [if_neg noneYoung]
  have rest : 0 ≤ sel.nValueRet - nValue - d.nFeeRet := by omega
  obtain ⟨left, balance, grown, counted⟩ := overpay_keeps req rest { d with
    fStakeDelegationVoided := d.fStakeDelegationVoided || coins.any fun coin => CScript.isPayToColdStaking coin.txOut.scriptPubKey }
  dsimp only at balance grown counted
  split
  · rename_i why stopped
    have notAge := placeChange_not_age stopped
    cases why with
    | age => exact absurd rfl notAge
    | noKey => trivial
    | keyPool e => trivial
  · rename_i vout' d' placed
    have change := placeChange_placed left placed
    unfold fillAndSign
    simp only
    split
    · trivial
    · rename_i txNew signed
      obtain ⟨prevouts, outs⟩ := signInputs_keeps signed
      have inputs : txNew.vin.map CTxIn.prevout = coins.map Coin.outpoint := by
        rw [prevouts, List.map_map]
        rfl
      apply checkFee_meets
      · exact grown.trans change.fee
      · intro covers
        refine ⟨coins, payments, ?_⟩
        exact
          { selected := ⟨round, nValue, d.nFeeRet, sel, (change.round.trans counted).trans now, amount, fee, grown.trans change.fee,
              found, isCoins⟩
            held := fun coin member => ⟨(held coin member).1, (held coin member).2.1⟩
            inputs := inputs
            once := by
              show (txNew.vin.map CTxIn.prevout).Nodup
              rw [inputs]
              exact once_spent selected once same
            balance := by
              have worth := selected.worth
              rw [← same, List.sum_toFinset _ once] at worth
              have placedAll : paidOut vout' + d'.nFeeRet = paidOut payments.flatten + _ + _ := change.balance
              show _ = paidOut txNew.vout + d'.nFeeRet
              rw [outs]
              show _ = paidOut vout' + d'.nFeeRet
              omega
            fee := fee.trans (grown.trans change.fee)
            recipients := recipients
            change := by
              show ChangePaid _ _ _ txNew.vout
              rw [outs]
              exact change.form
            covers := covers }

theorem createRound_meets {luck : Nat → RoundLuck} (total : req.totalAmount = some nValue)
    (split : ∀ coinControl, req.coinControl = some coinControl → 1 ≤ coinControl.nSplitBlock) (fee : 0 ≤ d.nFeeRet) :
    RoundMeets env w req luck d.nFeeRet (createRound env req w.toCWallet luck nValue d) := by
  unfold createRound
  simp only
  split
  · trivial
  · rename_i vout isVout
    obtain ⟨payments, recipients, rfl⟩ := SendRequest.payees_paid split isVout
    split
    · trivial
    · rename_i sel found
      have sum : nValue = paidOut payments.flatten := by
        rw [SendRequest.paidOut_payments recipients]
        exact SendRequest.totalAmount_eq total
      exact spendCoins_meets found rfl total fee recipients sum

/-- The call ends, at an assertion only where the key pool has no key, and what it creates balances. -/
theorem createTransaction_conserves_money (env : SendContext) (w : KeyedWallet) (req : SendRequest) (luck : Nat → RoundLuck)
    (pool : KeyPool.Wallet) (split : ∀ coinControl, req.coinControl = some coinControl → 1 ≤ coinControl.nSplitBlock) :
    ∃ ending, (∃ enough, ∀ rounds, enough ≤ rounds → createTransaction env req w.toCWallet luck pool rounds = some ending) ∧
      (∀ d, ending = .created d → ∃ coins payments, Sent env w req luck d coins payments) ∧ ending ≠ .aborted .age := by
  unfold createTransaction
  split
  · refine ⟨_, ⟨0, fun rounds _ => rfl⟩, fun d isCreated => ?_, fun isAborted => ?_⟩
    · cases isCreated
    · cases isAborted
  · rename_i nValue total
    have first : 0 ≤ (firstDraft req pool).nFeeRet := by
      unfold firstDraft
      simp only
      split <;> omega
    -- Every further round has a higher fee, and the fee is limited.
    have again : ∀ d d', 0 ≤ d.nFeeRet → createRound env req w.toCWallet luck nValue d = .inl d' → 0 ≤ d'.nFeeRet ∧
        (max req.feePay env.fees.maxTxFee - d'.nFeeRet).toNat < (max req.feePay env.fees.maxTxFee - d.nFeeRet).toNat := by
      intro d d' fee isAgain
      have meets : RoundMeets env w req luck d.nFeeRet (createRound env req w.toCWallet luck nValue d) := createRound_meets total split fee
      rw [isAgain] at meets
      obtain ⟨higher, limited⟩ := meets
      exact ⟨by omega, by omega⟩
    have answered : ∀ d ending, 0 ≤ d.nFeeRet → createRound env req w.toCWallet luck nValue d = .inr ending →
        EndMeets env w req luck ending := by
      intro d ending fee isEnding
      have meets : RoundMeets env w req luck d.nFeeRet (createRound env req w.toCWallet luck nValue d) := createRound_meets total split fee
      rw [isEnding] at meets
      exact meets
    obtain ⟨ending, ends, meets⟩ := Rounds.ends_of_measure (fun d : Draft => 0 ≤ d.nFeeRet) (EndMeets env w req luck)
      (fun d => (max req.feePay env.fees.maxTxFee - d.nFeeRet).toNat) again answered first
    refine ⟨ending, ends, ?_, ?_⟩
    · rintro d rfl
      exact meets
    · rintro rfl
      exact meets

def paidCoin : CWalletTx where
  tx := { hash := 0x51, vin := [], vout := [{ nValue := 100 * COIN, scriptPubKey := [0x51] }] }
  hashBlock := 0x10
  nIndex := 0

def paidBlock : CBlockIndex := { hash := 0x10, nHeight := 0 }

def paidChain : CChain where
  vChain := [paidBlock]
  heights := by
    intro nHeight pindex found
    obtain ⟨inside, rfl⟩ := List.getElem?_eq_some_iff.mp found
    have first : nHeight = 0 := by simpa using inside
    subst first
    rfl

def payingWallet : KeyedWallet where
  mapWallet := (∅ : StdMap uint256 CWalletTx).insert 0x51 paidCoin
  keyed := by
    intro hash wtx found
    rw [StdMap.lookup_insert_ite] at found
    split at found
    · rename_i here
      rw [here, ← Option.some.inj found]
      rfl
    · cases found

def payingContext : SendContext where
  mapBlockIndex := (∅ : StdMap uint256 CBlockIndex).insert 0x10 paidBlock
  chainActive := paidChain
  inMempool _ := false
  getTransactionLockSignatures _ := 0
  nSwiftTXDepth := 5
  getAdjustedTime := 0
  isMine _ := true
  isFromMe _ := true
  network := .main
  checkFinalTx _ := true
  isFinalTx _ := true
  isMineScript _ := ISMINE_SPENDABLE
  hasDelegator _ := false
  fMasterNode := false
  bSpendZeroConfChange := true
  fees :=
    { payTxFee := ⟨0⟩, minTxFee := ⟨0⟩, minRelayTxFee := ⟨0⟩, maxTxFee := COIN, fPayAtLeastCustomFee := true, estimateFee := fun _ => ⟨0⟩,
      nTxConfirmTarget := 1, fSendFreeTransactions := false, priorityAllows := fun _ _ _ => false }
  signSignature _ _ _ := some [0x51]
  hash256 _ := 0x52
  getID _ := .filled 0
  keySource := KeyPool.longerKeys
  keyContext := { isLocked := false, isHDEnabled := false, keypool := 1, getTime := 0 }

def splitRequest : SendRequest where
  vecSend := [([0x53], 100 * COIN)]
  wtxNew := { tx := { hash := 0, vin := [], vout := [] } }
  reservekey := 0
  coinControl := some { fSplitBlock := true, nSplitBlock := 2 }
  coin_type := .ALL_COINS
  useIX := false
  nFeePay := 0
  fIncludeDelegated := false

noncomputable def plainLuck (_ : Nat) : RoundLuck where
  selection _ :=
    { shuffle := id, shuffled := fun _ => List.Perm.refl _, ties := id, tied := fun _ => List.Perm.refl _, randbool := fun _ _ _ => true }
  getRandInt _ := 0
  order := Finset.toList
  nodup_order := Finset.nodup_toList
  toFinset_order := Finset.toList_toFinset

def payingPool : KeyPool.Wallet := { sets := fun _ => [], pool := ∅, keys := [] }

def paidSelection : Selection := { setCoins := {(paidCoin, 0)}, nValueRet := 100 * COIN }

def splitDraft : Draft where
  round := 1
  nFeeRet := 0
  wtxNew :=
    { tx :=
        { hash := 0x52
          vin := [{ prevout := ⟨0x51, 0⟩, scriptSig := [0x51] }]
          vout := [{ nValue := 50 * COIN, scriptPubKey := [0x53] }, { nValue := 50 * COIN, scriptPubKey := [0x53] }] }
      fFromMe := true }
  pool := payingPool.returnReserved 0

theorem splitRequest_created : createRound payingContext splitRequest payingWallet.toCWallet plainLuck (100 * COIN)
    (firstDraft splitRequest payingPool) = .inr (.created splitDraft) := by
  have coins : (plainLuck 0).order paidSelection.setCoins = [(paidCoin, 0)] := Finset.toList_singleton _
  have payees : splitRequest.payees payingContext.fees.minRelayTxFee = some splitDraft.wtxNew.tx.vout := rfl
  have selected : payingWallet.selectCoins payingContext.toSpendContext (plainLuck (firstDraft splitRequest payingPool).round).selection
      splitRequest.choice (100 * COIN + (firstDraft splitRequest payingPool).nFeeRet) = some paidSelection := rfl
  unfold createRound
  simp only [payees, selected]
  unfold spendCoins
  simp only [firstDraft, coins]
  rfl

theorem split_payment_conserves_money :
    (∃ enough, ∀ rounds, enough ≤ rounds →
      createTransaction payingContext splitRequest payingWallet.toCWallet plainLuck payingPool rounds = some (.created splitDraft)) ∧
      ∃ coins payments, Sent payingContext payingWallet splitRequest plainLuck splitDraft coins payments := by
  obtain ⟨ending, ⟨enough, ends⟩, created, _⟩ :=
    createTransaction_conserves_money payingContext payingWallet splitRequest plainLuck payingPool (by
      intro coinControl isControl
      cases isControl
      decide)
  have now : createTransaction payingContext splitRequest payingWallet.toCWallet plainLuck payingPool (enough + 1) =
      some (.created splitDraft) := by
    have total : splitRequest.totalAmount = some (100 * COIN) := rfl
    simp only [createTransaction, total, Rounds.loop, splitRequest_created]
  have same : ending = .created splitDraft := Option.some.inj ((ends (enough + 1) (Nat.le_succ enough)).symm.trans now)
  exact ⟨⟨enough, same ▸ ends⟩, created splitDraft same⟩

end SendContext

end SchillingCoin
