import SchillingCoin.Masternode.MasternodeMan

/-!
The list of masternodes and the collateral of its entries: no outpoint is listed twice, and an entry that a message
adds is backed by the output it names exactly when that output is the one the collateral was found in.
-/

namespace SchillingCoin

namespace CMasternodeMan

def prevouts (m : CMasternodeMan) : List COutPoint := m.vMasternodes.map fun mn => mn.vin.prevout

def Grows (before after : CMasternodeMan) (added : Option CMasternode) : Prop :=
  ∃ kept : List CMasternode, (kept.map fun mn => mn.vin.prevout).Sublist before.prevouts ∧
    after.vMasternodes = kept ++ added.toList ∧ ∀ mn ∈ added, mn.vin.prevout ∉ kept.map fun mn => mn.vin.prevout

def SamePrevouts (before after : CMasternodeMan) : Prop := after.prevouts = before.prevouts

variable (crypto : MasternodeCrypto) (ctx : MasternodeManContext) {m m' : CMasternodeMan}

theorem grows_of_sublist (sub : m'.prevouts.Sublist m.prevouts) : Grows m m' none :=
  ⟨m'.vMasternodes, sub, by simp, by simp⟩

theorem SamePrevouts.grows (same : SamePrevouts m m') : Grows m m' none :=
  grows_of_sublist (by rw [same])

variable {vin : CTxIn} {mn : CMasternode} {before : CMasternodeMan}

theorem find_prevout (found : m.find vin = some mn) : mn.vin.prevout = vin.prevout := by
  simpa using List.find?_some found

theorem find_none (absent : m.find vin = none) : vin.prevout ∉ m.prevouts := by
  intro member
  obtain ⟨mn, listed, same⟩ := List.mem_map.mp member
  have none_ := List.find?_eq_none.mp absent mn listed
  simp [same] at none_

theorem check_vin (forceCheck : Bool) (mn : CMasternode) : (mn.check crypto ctx forceCheck).vin = mn.vin := by
  unfold CMasternode.check
  simp only [apply_ite CMasternode.vin, ite_self]

theorem same_unless [Decidable c] (same : SamePrevouts m rest.2) : SamePrevouts m (if c then (b, m) else rest).2 := by
  split
  · rfl
  · exact same

theorem modify_same (keeps : ∀ mn, mn.vin.prevout = vin.prevout → (change mn).vin.prevout = vin.prevout) :
    SamePrevouts m (m.modify vin change) := by
  unfold SamePrevouts modify prevouts
  simp only
  induction m.vMasternodes with
  | nil => rfl
  | cons mn rest ih =>
    rw [List.replaceF]
    by_cases here : mn.vin.prevout = vin.prevout
    · simp [here, keeps mn here]
    · have other : (mn.vin.prevout == vin.prevout) = false := by simpa using here
      simp only [other, Bool.false_eq_true, if_false, List.map_cons, ih]

theorem ping_checkAndUpdate_same (fRequireEnabled : Bool) (p : CMasternodePing) :
    SamePrevouts m (p.checkAndUpdate crypto ctx fRequireEnabled m).2 := by
  unfold CMasternodePing.checkAndUpdate
  refine same_unless (same_unless ?_)
  cases found : m.find p.vin with
  | none => rfl
  | some pmn =>
    refine same_unless (same_unless (same_unless (same_unless (same_unless ?_))))
    refine modify_same (m := { m with mapSeenMasternodeBroadcast := _ }) fun mn _ => ?_
    rw [check_vin]
    have here : pmn.vin.prevout = p.vin.prevout := find_prevout found
    exact here

theorem SamePrevouts.trans (first : SamePrevouts m m') (second : SamePrevouts m' m'') :
    SamePrevouts m m'' := Eq.trans second first

variable (mnb : CMasternode) (d : MasternodeManContext × Op) (ops : List (MasternodeManContext × Op))

theorem takePing_same : SamePrevouts m (m.takePing crypto ctx mnb) := by
  have pinged : SamePrevouts m
      (if mnb.lastPing.isDefault then (true, m) else mnb.lastPing.checkAndUpdate crypto ctx false m).2 := by
    split
    · rfl
    · exact ping_checkAndUpdate_same crypto ctx false mnb.lastPing
  unfold takePing
  generalize (if mnb.lastPing.isDefault then (true, m) else mnb.lastPing.checkAndUpdate crypto ctx false m) = result at pinged ⊢
  dsimp only
  split
  · have taken : SamePrevouts result.2 (result.2.modify mnb.vin fun pmn => { pmn with lastPing := mnb.lastPing }) :=
      modify_same fun _ same => same
    exact pinged.trans taken
  · exact pinged

theorem updateFromNewBroadcast_same (pmn mnb : CMasternode) :
    SamePrevouts m (m.updateFromNewBroadcast crypto ctx pmn mnb).2 := by
  unfold updateFromNewBroadcast
  split
  · have renewed : SamePrevouts m (m.modify mnb.vin fun pmn =>
        { pmn with
          pubKeyMasternode := mnb.pubKeyMasternode
          pubKeyCollateralAddress := mnb.pubKeyCollateralAddress
          sigTime := mnb.sigTime
          vchSig := mnb.vchSig
          protocolVersion := mnb.protocolVersion
          addr := mnb.addr }) := modify_same fun _ same => same
    exact renewed.trans (takePing_same crypto ctx mnb)
  · rfl

theorem updateAndCheck_same (pmn mnb : CMasternode) : SamePrevouts m (m.updateAndCheck crypto ctx pmn mnb) := by
  have updated := updateFromNewBroadcast_same crypto ctx (m := m) pmn mnb
  unfold updateAndCheck
  dsimp only
  split
  · exact updated.trans (modify_same fun mn same => by rw [check_vin]; exact same)
  · exact updated

theorem checkAndUpdate_same : SamePrevouts m (m.checkAndUpdate crypto ctx mnb).2 := by
  unfold checkAndUpdate
  iterate 8 apply same_unless
  cases m.find mnb.vin with
  | none => rfl
  | some pmn =>
    refine same_unless (same_unless ?_)
    split
    · exact updateAndCheck_same crypto ctx pmn mnb
    · rfl

theorem remove_sublist (vin : CTxIn) : (m.remove vin).prevouts.Sublist m.prevouts := by
  unfold remove prevouts
  exact (List.eraseP_sublist).map _

theorem add_grows (sub : m.prevouts.Sublist before.prevouts) (mn : CMasternode) :
    Grows before (m.add mn).2 (m.add mn).1 := by
  unfold add
  split
  · exact grows_of_sublist sub
  split
  · exact grows_of_sublist sub
  · rename_i absent
    refine ⟨m.vMasternodes, sub, rfl, fun mn' same => ?_⟩
    obtain rfl := Option.some.inj same
    exact find_none absent

theorem removeOld_sublist (vin : CTxIn) : (m.removeOld vin).prevouts.Sublist m.prevouts := by
  unfold removeOld
  split
  · exact List.Sublist.refl _
  · exact remove_sublist _

theorem addUnspent_grows (sub : m.prevouts.Sublist before.prevouts) (mnb : CMasternode) :
    Grows before (m.addUnspent crypto ctx mnb).2 (m.addUnspent crypto ctx mnb).1 := by
  unfold addUnspent
  iterate 4
    split
    · exact grows_of_sublist sub
  exact add_grows sub mnb

theorem checkInputsAndAdd_grows (same : SamePrevouts before m) (mnb : CMasternode) :
    Grows before (m.checkInputsAndAdd crypto ctx mnb).2 (m.checkInputsAndAdd crypto ctx mnb).1 := by
  unfold checkInputsAndAdd
  iterate 3
    split
    · exact same.grows
  refine addUnspent_grows crypto ctx ?_ mnb
  rw [← same]
  exact removeOld_sublist mnb.vin

theorem processBroadcast_grows : Grows m (m.processBroadcast crypto ctx mnb).2 (m.processBroadcast crypto ctx mnb).1 := by
  unfold processBroadcast
  split
  · exact grows_of_sublist (List.Sublist.refl _)
  have updated := checkAndUpdate_same crypto ctx
    (m := { m with mapSeenMasternodeBroadcast := m.mapSeenMasternodeBroadcast.insert (mnb.getHash crypto) mnb }) mnb
  dsimp only
  split
  · exact updated.grows
  split
  · exact updated.grows
  · exact checkInputsAndAdd_grows crypto ctx updated mnb

theorem checkAll_same : SamePrevouts m (m.checkAll crypto ctx) := by
  unfold SamePrevouts checkAll prevouts
  rw [List.map_map]
  refine List.map_congr_left fun mn _ => ?_
  exact congrArg CTxIn.prevout (check_vin crypto ctx false mn)

theorem checkAndRemove_sublist (forceExpiredRemoval : Bool) :
    (m.checkAndRemove crypto ctx forceExpiredRemoval).prevouts.Sublist m.prevouts := by
  have sub : (m.checkAndRemove crypto ctx forceExpiredRemoval).prevouts.Sublist (m.checkAll crypto ctx).prevouts :=
    List.filter_sublist.map _
  rwa [checkAll_same crypto ctx] at sub

theorem updateMasternodeList_grows :
    Grows m (m.updateMasternodeList crypto ctx mnb).2 (m.updateMasternodeList crypto ctx mnb).1 := by
  unfold updateMasternodeList
  dsimp only
  split
  · refine add_grows ?_ mnb
    exact List.Sublist.refl m.prevouts
  · exact SamePrevouts.grows (updateFromNewBroadcast_same crypto ctx _ mnb)

theorem step_grows : Grows m (m.step crypto d).2 (m.step crypto d).1 := by
  obtain ⟨ctx, op⟩ := d
  have stays : Grows m m none := grows_of_sublist (List.Sublist.refl _)
  unfold step
  cases op with
  | mnb mnb =>
    dsimp only
    split
    · exact stays
    · exact processBroadcast_grows crypto ctx _
  | mnp mnp =>
    dsimp only
    split
    · exact stays
    · unfold processPing
      split
      · exact stays
      · exact SamePrevouts.grows (ping_checkAndUpdate_same crypto ctx true mnp)
  | dseg vin =>
    dsimp only
    split
    · exact stays
    · unfold processDseg
      split
      · exact stays
      · exact stays
  | check => exact (checkAll_same crypto ctx).grows
  | checkAndRemove forceExpiredRemoval => exact grows_of_sublist (checkAndRemove_sublist crypto ctx forceExpiredRemoval)
  | remove vin => exact grows_of_sublist (remove_sublist vin)
  | updateMasternodeList mnb => exact updateMasternodeList_grows crypto ctx mnb
  | clear => exact grows_of_sublist (List.nil_sublist _)

theorem Grows.nodup (grows : Grows m m' added) (nodup : m.prevouts.Nodup) : m'.prevouts.Nodup := by
  obtain ⟨kept, sub, same, fresh⟩ := grows
  unfold prevouts
  rw [same, List.map_append]
  have before : (kept.map fun mn => mn.vin.prevout).Nodup := nodup.sublist sub
  cases added with
  | none => simpa using before
  | some mn =>
    refine List.nodup_append.mpr ⟨before, by simp, ?_⟩
    intro o member o' last same'
    obtain rfl : o' = mn.vin.prevout := by simpa using last
    exact fresh mn rfl (same' ▸ member)

def Pays (mn : CMasternode) (out : CTxOut) : Prop := out.nValue = ctx.collateral ∧ out.scriptPubKey = mn.payee crypto

def Backed (mn : CMasternode) : Prop :=
  ∃ coins, ctx.mempool.getCoins ctx.base mn.vin.prevout.hash = some coins ∧ coins.isAvailable mn.vin.prevout.n = true ∧
    Pays crypto ctx mn (coins.outputAt mn.vin.prevout.n)

/-- A broadcast that is not refused before its collateral is looked at: it is new, and `CheckAndUpdate` accepts it. -/
structure ReachesCollateral (m : CMasternodeMan) (mnb : CMasternode) : Prop where
  listening : ignores ctx = false
  fresh : m.mapSeenMasternodeBroadcast.lookup (mnb.getHash crypto) = none
  accepted : (checkAndUpdate crypto ctx
    { m with mapSeenMasternodeBroadcast := m.mapSeenMasternodeBroadcast.insert (mnb.getHash crypto) mnb } mnb).1 = true

/-- When some output of the transaction pays the collateral to the key of a broadcast, the unspent output that the
broadcast names does, unless it is worth too little for the trial transaction. -/
def NamesCollateral (m : CMasternodeMan) (d : MasternodeManContext × Op) : Prop :=
  ∀ mnb, d.2 = .mnb mnb → ReachesCollateral crypto d.1 m { mnb with activeState := .enabled } →
    mnb.isInputAssociatedWithPubkey crypto d.1 = true →
    ∀ coins, d.1.mempool.getCoins d.1.base mnb.vin.prevout.hash = some coins → coins.isAvailable mnb.vin.prevout.n = true →
      d.1.trialValue ≤ (coins.outputAt mnb.vin.prevout.n).nValue → Pays crypto d.1 mnb (coins.outputAt mnb.vin.prevout.n)

def Op.isMessage : Op → Bool
  | .mnb _ | .mnp _ | .dseg _ => true
  | _ => false

theorem add_added {mn' : CMasternode} (added : (m.add mn).1 = some mn') : mn' = mn := by
  unfold add at added
  repeat' split at added
  · cases added
  · cases added
  · exact (Option.some.inj added).symm

theorem checkAndUpdate_plain {mnb : CMasternode} (valid : (m.checkAndUpdate crypto ctx mnb).1 = true) : mnb.vin.scriptSig = [] := by
  unfold checkAndUpdate at valid
  iterate 5
    have passed := Checked.not_stopped valid
    rw [if_neg passed] at valid
    clear passed
  have empty := Checked.not_stopped valid
  simpa using empty

theorem processBroadcast_added {mnb : CMasternode} (listening : ignores ctx = false)
    (added : (m.processBroadcast crypto ctx mnb).1 = some mn) :
    mn = mnb ∧ ReachesCollateral crypto ctx m mnb ∧ mnb.isInputAssociatedWithPubkey crypto ctx = true ∧
      ctx.acceptableVin crypto mnb.vin = true ∧ mnb.vin.scriptSig = [] := by
  unfold processBroadcast at added
  split at added
  · cases added
  rename_i fresh
  dsimp only at added
  split at added
  · cases added
  rename_i updated
  split at added
  · cases added
  rename_i associated
  have plain : mnb.vin.scriptSig = [] := checkAndUpdate_plain crypto ctx (by simpa using updated)
  unfold checkInputsAndAdd at added
  iterate 3
    split at added
    · cases added
  unfold addUnspent at added
  split at added
  · cases added
  split at added
  · cases added
  rename_i acceptable
  iterate 2
    split at added
    · cases added
  exact ⟨add_added added, ⟨listening, by simpa using fresh, by simpa using updated⟩, by simpa using associated,
    by simpa using acceptable, plain⟩

theorem acceptableVin_worth (plain : vin.scriptSig = []) (acceptable : ctx.acceptableVin crypto vin = true) :
    ∃ coins, ctx.mempool.getCoins ctx.base vin.prevout.hash = some coins ∧ coins.isAvailable vin.prevout.n = true ∧
      ctx.trialValue ≤ (coins.outputAt vin.prevout.n).nValue := by
  unfold MasternodeManContext.acceptableVin at acceptable
  dsimp only at acceptable
  generalize result : acceptableInputs ctx.chain ctx.checks ctx.policy ctx.base ctx.mempool _ false false false = r at acceptable
  cases r with
  | error e => cases acceptable
  | ok u => exact acceptableInputs_ok rfl rfl plain result

theorem step_backed_iff {d : MasternodeManContext × Op} (message : d.2.isMessage = true)
    (added : (m.step crypto d).1 = some mn) : Backed crypto d.1 mn ↔ NamesCollateral crypto m d := by
  obtain ⟨ctx, op⟩ := d
  cases op with
  | mnb mnb =>
    unfold step at added
    dsimp only at added
    split at added
    · cases added
    rename_i listening
    obtain ⟨rfl, reached, associated, acceptable, plain⟩ := processBroadcast_added crypto ctx (by simpa using listening) added
    obtain ⟨coins, found, available, worth⟩ := acceptableVin_worth crypto ctx plain acceptable
    constructor
    · rintro ⟨coins', found', _, pays⟩ mnb' same _ _ coins'' found'' _ _
      obtain rfl := Op.mnb.inj same
      obtain rfl := Option.some.inj (found'.symm.trans found'')
      exact pays
    · intro names
      exact ⟨coins, found, available, names mnb rfl reached associated coins found available worth⟩
  | mnp mnp => cases added
  | dseg vin => cases added
  | check | checkAndRemove _ | remove _ | updateMasternodeList _ | clear => cases message

def UniqueThroughout : Prop :=
  ∀ start, start <+: ops → (run crypto start).prevouts.Nodup

def NewOnesAdded : Prop :=
  ∀ start d, start ++ [d] <+: ops → ∀ mn ∈ (run crypto (start ++ [d])).vMasternodes,
    mn.vin.prevout ∈ (run crypto start).prevouts ∨ ((run crypto start).step crypto d).1 = some mn

def BackedThroughout : Prop :=
  ∀ start d, start ++ [d] <+: ops → d.2.isMessage = true →
    ∀ mn, ((run crypto start).step crypto d).1 = some mn → Backed crypto d.1 mn

theorem run_append (start : List (MasternodeManContext × Op)) (d : MasternodeManContext × Op) :
    run crypto (start ++ [d]) = ((run crypto start).step crypto d).2 := by
  unfold run
  rw [List.foldl_append]
  rfl

theorem run_nodup : (run crypto ops).prevouts.Nodup := by
  induction ops using List.reverseRecOn with
  | nil => exact List.nodup_nil
  | append_singleton start d ih =>
    rw [run_append]
    exact (step_grows crypto d).nodup ih

theorem newOnesAdded : NewOnesAdded crypto ops := by
  intro start d _ mn listed
  rw [run_append] at listed
  obtain ⟨kept, sub, same, _⟩ := step_grows crypto (m := run crypto start) d
  rw [same] at listed
  rcases List.mem_append.mp listed with old | new
  · exact Or.inl (sub.subset (List.mem_map.mpr ⟨mn, old, rfl⟩))
  · exact Or.inr (by simpa using new)

/-- No outpoint is ever listed twice, and the entries that messages add are backed where no broadcast that gets so far names another
output than its collateral. -/
theorem masternodes_unique_and_backed (ops : List (MasternodeManContext × Op)) :
    UniqueThroughout crypto ops ∧ NewOnesAdded crypto ops ∧
    ((∀ start d, start ++ [d] <+: ops → NamesCollateral crypto (run crypto start) d) → BackedThroughout crypto ops) ∧
    (∀ start d, start ++ [d] <+: ops → d.2.isMessage = true → ¬NamesCollateral crypto (run crypto start) d →
      ∀ mn, ((run crypto start).step crypto d).1 = some mn → ¬Backed crypto d.1 mn) := by
  refine ⟨fun start _ => run_nodup crypto start, newOnesAdded crypto ops, fun names start d sub message mn added => ?_,
    fun start d _ message other mn added backed => ?_⟩
  · exact (step_backed_iff crypto message added).mpr (names start d sub)
  · exact other ((step_backed_iff crypto message added).mp backed)

def openCrypto : MasternodeCrypto where
  getID key := ⟨(key ++ List.replicate 20 0).take 20, by simp⟩
  broadcastHash _ _ := 1
  pingHash _ _ _ := 2
  signatureHash _ _ _ _ _ _ := 3
  verifyMessage _ _ _ := true
  checkPing _ _ := true
  txHash _ _ := 4
  collateralPubKey := []

def doubleTx : CTransaction where
  hash := 5
  vin := []
  vout := [{ nValue := 100 * COIN, scriptPubKey := getScriptForDestination (openCrypto.getID [1]) },
    { nValue := 100 * COIN, scriptPubKey := getScriptForDestination (openCrypto.getID [2]) }]

def doubleContext : MasternodeManContext where
  chain := {
    network := .regtest
    hashGenesisBlock := 1
    tip := some { hash := 20, nHeight := 20 }
    mapBlockIndex := (∅ : StdMap uint256 CBlockIndex).insert 20 { hash := 20, nHeight := 20 } }
  chainActive := ⟨[], by simp⟩
  checks := passingChecks
  policy := {
    checkFinalTx := fun _ => true
    isStandardTx := fun _ => true
    areInputsStandard := fun _ _ => true
    verifyStandard := fun _ _ _ _ => true
    isObfuscationBroadcast := fun _ => false
    getMinRelayFee := fun _ _ => 0
    minRelayTxFee := fun _ => 0
    relayPriority := true
    allowFree := fun _ _ => true
    rateLimited := fun _ => false }
  base := { coins := (∅ : StdMap uint256 CCoins).insert 5 (CCoins.fromTx doubleTx 1), hashBlock := 20 }
  getTime := 10000
  getAdjustedTime := 10000
  minProto := 70000
  getTransaction txid := if txid = 5 then some (doubleTx, 0) else none

def doubleBroadcast (n : Nat) : CMasternode where
  vin := { prevout := ⟨5, n⟩ }
  addr := { port := 1 }
  pubKeyCollateralAddress := [1]
  pubKeyMasternode := [3]
  sigTime := 9000
  protocolVersion := 70000
  lastPing := { vin := { prevout := ⟨5, n⟩ }, blockHash := 20, sigTime := 9900 }

theorem doubleBroadcast_added (n : Nat) (either : n = 0 ∨ n = 1) :
    (step openCrypto {} (doubleContext, .mnb (doubleBroadcast n))).1 = some (doubleBroadcast n) := by
  obtain rfl | rfl := either <;> decide

/-- The broadcast comes twice, and the second time it has been seen. -/
theorem first_output_backed :
    BackedThroughout openCrypto [(doubleContext, .mnb (doubleBroadcast 0)), (doubleContext, .mnb (doubleBroadcast 0))] ∧
      (step openCrypto {} (doubleContext, .mnb (doubleBroadcast 0))).1 = some (doubleBroadcast 0) := by
  refine ⟨(masternodes_unique_and_backed openCrypto _).2.2.1 ?_, doubleBroadcast_added 0 (Or.inl rfl)⟩
  intro start d sub mnb same _ _ coins found _ _
  have member := sub.subset (List.mem_append_right start List.mem_cons_self)
  obtain rfl : d = (doubleContext, .mnb (doubleBroadcast 0)) := by simpa using member
  obtain rfl := Op.mnb.inj same
  have coins_ : doubleContext.mempool.getCoins doubleContext.base 5 = some (CCoins.fromTx doubleTx 1) := by decide
  obtain rfl := Option.some.inj (coins_.symm.trans found)
  exact ⟨by decide, by decide⟩

/-- The second output, which pays another key, is listed for the first key. -/
theorem second_output_not_backed :
    (step openCrypto {} (doubleContext, .mnb (doubleBroadcast 1))).1 = some (doubleBroadcast 1) ∧
      ¬BackedThroughout openCrypto [(doubleContext, .mnb (doubleBroadcast 1))] := by
  have added := doubleBroadcast_added 1 (Or.inr rfl)
  refine ⟨added, fun backed => ?_⟩
  obtain ⟨coins, found, _, _, script⟩ := backed [] _ List.prefix_rfl rfl _ added
  have coins_ : doubleContext.mempool.getCoins doubleContext.base 5 = some (CCoins.fromTx doubleTx 1) := by decide
  obtain rfl := Option.some.inj (coins_.symm.trans found)
  exact absurd script (by decide)

end CMasternodeMan

end SchillingCoin
