import SchillingCoin.Stake.Kernel
import SchillingCoin.Validation.CheckBlock

/-!
A block received from a peer on its way into the block index: `ProcessNewBlock`, `AcceptBlock`, `AcceptBlockHeader` and
`AddToBlockIndex` in `main.cpp`, with every read of `vtx` and `vout` checked against the bounds.
-/

namespace SchillingCoin

open Checked (refuse)

def Reject.isAbort : Reject → Bool
  | .abort _ => true
  | _ => false

def WithinBounds {α : Type} (x : Except Reject α) : Prop := ∀ e, x = .error e → e.isAbort = false

section
variable {α β : Type}

theorem withinBounds_ok (a : α) : WithinBounds (.ok a : Except Reject α) := nofun

theorem withinBounds_error : WithinBounds (.error e : Except Reject α) ↔ e.isAbort = false :=
  ⟨fun within => within e rfl, fun within _ h => by cases h; exact within⟩

theorem withinBounds_refuse (other : e.isAbort = false) : WithinBounds (refuse bad e) := by
  intro e' h
  rw [← (Checked.refuse_error h).2]
  exact other

theorem withinBounds_bind : WithinBounds (x >>= f) ↔ WithinBounds x ∧ ∀ a, x = .ok a → WithinBounds (f a) := by
  cases x with
  | error e =>
    have same : (Except.error e >>= f) = .error e := rfl
    rw [same, withinBounds_error, withinBounds_error]
    exact ⟨fun within => ⟨within, nofun⟩, And.left⟩
  | ok a =>
    rw [Checked.ok_bind]
    exact ⟨fun within => ⟨withinBounds_ok a, fun b h => by cases h; exact within⟩, fun both => both.2 a rfl⟩

theorem withinBounds_all (within : ∀ x, WithinBounds (check x)) : WithinBounds (Checked.all check l) := by
  intro e h
  obtain ⟨x, _, failed⟩ := Checked.all_error h
  exact within x e failed

end

variable {network : Network} {tx : CTransaction} {block : CBlock}

theorem checkOutputs_withinBounds : WithinBounds (checkOutputs network tx active nValueOut vout) := by
  induction vout generalizing nValueOut with
  | nil => exact withinBounds_ok ()
  | cons txout rest ih =>
    unfold checkOutputs
    dsimp only
    split_ifs
    all_goals first
      | exact withinBounds_error.mpr rfl
      | exact ih

theorem checkDuplicateInputs_withinBounds : WithinBounds (checkDuplicateInputs seen vin) := by
  induction vin generalizing seen with
  | nil => exact withinBounds_ok ()
  | cons txin rest ih =>
    unfold checkDuplicateInputs
    split
    · exact withinBounds_error.mpr rfl
    · exact ih

theorem checkInputShape_withinBounds : WithinBounds (checkInputShape tx active) := by
  unfold checkInputShape
  split
  all_goals exact withinBounds_refuse rfl

theorem checkTransaction_withinBounds (tx : CTransaction) :
    WithinBounds (checkTransaction checks network tx zerocoin cold) := by
  unfold checkTransaction
  refine withinBounds_bind.mpr ⟨withinBounds_refuse rfl, fun _ _ => ?_⟩
  refine withinBounds_bind.mpr ⟨withinBounds_refuse rfl, fun _ _ => ?_⟩
  refine withinBounds_bind.mpr ⟨withinBounds_refuse rfl, fun _ _ => ?_⟩
  refine withinBounds_bind.mpr ⟨checkOutputs_withinBounds, fun _ _ => ?_⟩
  exact withinBounds_bind.mpr ⟨checkDuplicateInputs_withinBounds, fun _ _ => checkInputShape_withinBounds⟩

theorem checkTransaction_vin (passed : checkTransaction checks network tx zerocoin cold = .ok ()) : tx.vin ≠ [] := by
  have filled := (Checked.after_refuse passed).1
  intro empty
  rw [empty] at filled
  cases filled

theorem checkBlockShape_withinBounds : WithinBounds (ChainState.checkBlockShape block) := by
  unfold ChainState.checkBlockShape
  split
  · exact withinBounds_error.mpr rfl
  · refine withinBounds_bind.mpr ⟨withinBounds_refuse rfl, fun _ _ => ?_⟩
    refine withinBounds_bind.mpr ⟨withinBounds_refuse rfl, fun _ _ => ?_⟩
    exact withinBounds_bind.mpr ⟨withinBounds_refuse rfl, fun _ _ => withinBounds_refuse rfl⟩

theorem checkBlockShape_vtx (passed : ChainState.checkBlockShape block = .ok ()) : block.vtx ≠ [] := by
  intro empty
  unfold ChainState.checkBlockShape at passed
  rw [empty] at passed
  cases passed

theorem CTransaction.isCoinStake_vin (coinstake : tx.isCoinStake = true) :
    ∃ txin rest, tx.vin = txin :: rest := by
  unfold CTransaction.isCoinStake at coinstake
  split at coinstake
  · cases coinstake
  · next txin rest filled => exact ⟨txin, rest, filled⟩

theorem CBlock.vtx_of_second (second : block.vtx[1]? = some tx) :
    ∃ coinbase others, block.vtx = coinbase :: tx :: others := by
  match layout : block.vtx with
  | [] => simp [layout] at second
  | [_] => simp [layout] at second
  | coinbase :: _ :: others => exact ⟨coinbase, others, by simpa [layout] using second⟩

theorem CBlock.isProofOfStake_iff :
    block.isProofOfStake = true ↔ ∃ tx, block.vtx[1]? = some tx ∧ tx.isCoinStake = true := by
  unfold CBlock.isProofOfStake
  split
  · next tx rest filled => simp [filled]
  · next other =>
    refine ⟨nofun, fun ⟨tx, second, _⟩ => ?_⟩
    obtain ⟨coinbase, others, filled⟩ := CBlock.vtx_of_second second
    exact absurd filled (other coinbase tx others)

namespace ChainState

variable {s : ChainState} {checks : Checks} {block : CBlock}

/-- `checkColdStakeFreeOutput`, where the output that the coinstake spends may not be there (`none`). -/
def freeOutputRead (s : ChainState) (checks : Checks) (tx : CTransaction) (nHeight : Nat) : Option Bool :=
  if !tx.hasP2CSOutputs then some true
  else match tx.vout.reverse with
    | lastOut :: before :: _ :: _ =>
      if lastOut.scriptPubKey = before.scriptPubKey then some true
      else if lastOut.nValue = Network.getMasternodePayment nHeight (s.network.getBlockValue nHeight) then some true
      else if s.network = .regtest then some false
      else if !s.isSynced then
        match tx.vin.head?.bind fun i => (checks.getTransaction i.prevout.hash).map fun txPrev => txPrev.vout[i.prevout.n]? with
        | none => some false
        | some none => none
        | some (some out) =>
          let amtIn := int64 (out.nValue + s.network.getBlockValue (nHeight - 1))
          let amtOut := (tx.vout.drop 1).dropLast.foldl (fun sum o => int64 (sum + o.nValue)) 0
          some (decide (amtOut = amtIn))
      else if s.budget.isBudgetPaymentBlock nHeight then some (s.isSporkActive .enableSuperblocks)
      else some false
    | _ => some true

def beforePayments (s : ChainState) (checks : Checks) (block : CBlock) : Except Reject Unit := do
  refuse (!checks.checkBlockHeader block (!block.isProofOfStake)) (.dos 100 "bad-header")
  refuse (!checks.merkleRootMatches block) (.dos 100 "bad-txnmrklroot")
  refuse (checks.merkleTreeMutated block) (.dos 100 "bad-txns-duplicate")
  refuse (block.vtx.isEmpty || decide (block.vtx.length > MAX_BLOCK_SIZE_CURRENT) ||
    decide (checks.blockSize block > MAX_BLOCK_SIZE_CURRENT)) (.dos 100 "bad-blk-length")
  checkBlockShape block
  s.checkLockedInputs block

def afterPayments (s : ChainState) (checks : Checks) (block : CBlock) : Except Reject Unit := do
  let fZerocoinActive := decide (block.nTime > s.network.consensus.ZC_TimeStart)
  let fColdStakingActive := (s.paymentsChecked block).isNone || s.isSporkActive .coldStakingEnforcement
  Checked.all (fun tx => checkTransaction checks s.network tx fZerocoinActive fColdStakingActive) block.vtx
  let nMaxBlockSigOps := if fZerocoinActive then MAX_BLOCK_SIGOPS_CURRENT else MAX_BLOCK_SIGOPS_LEGACY
  refuse (decide ((block.vtx.map checks.getLegacySigOpCount).sum > nMaxBlockSigOps)) (.dos 100 "bad-blk-sigops")

def freeOutputMissing (s : ChainState) (checks : Checks) (block : CBlock) : Bool :=
  (s.paymentsChecked block).any fun nHeight =>
    block.isProofOfStake && (block.vtx[1]?).any fun tx => (s.freeOutputRead checks tx nHeight).isNone

def readBlock (s : ChainState) (checks : Checks) (block : CBlock) : Except Reject CBudgetManager := do
  s.beforePayments checks block
  refuse (s.freeOutputMissing checks block) (.abort "txPrev.vout[n]")
  let budget ← s.checkBlockPayments checks block
  s.afterPayments checks block
  return budget

/-- The free output of a cold stake is weighed against the output it spends: the node cannot tell yet whether it pays a budget. -/
def WeighsFreeOutput (s : ChainState) (tx : CTransaction) (nHeight : Nat) : Prop :=
  tx.hasP2CSOutputs = true ∧ s.network ≠ .regtest ∧ s.isSynced = false ∧
    ∃ lastOut before other rest, tx.vout.reverse = lastOut :: before :: other :: rest ∧
      lastOut.scriptPubKey ≠ before.scriptPubKey ∧
      lastOut.nValue ≠ Network.getMasternodePayment nHeight (s.network.getBlockValue nHeight)

def SpendsBeyond (checks : Checks) (tx : CTransaction) : Prop :=
  ∃ txin txPrev, tx.vin.head? = some txin ∧ checks.getTransaction txin.prevout.hash = some txPrev ∧
    txPrev.vout.length ≤ txin.prevout.n

variable {nHeight : Nat}

theorem weighsFreeOutput_of_none (missing : s.freeOutputRead checks tx nHeight = none) : s.WeighsFreeOutput tx nHeight := by
  unfold freeOutputRead at missing
  split at missing
  · cases missing
  next delegated =>
  split at missing
  · next lastOut before other rest layout =>
    split_ifs at missing with alike paid testing waiting
    exact ⟨by simpa using delegated, testing, by simpa using waiting, lastOut, before, other, rest, layout, alike, paid⟩
  · cases missing

theorem freeOutputRead_none_iff (weighs : s.WeighsFreeOutput tx nHeight) :
    s.freeOutputRead checks tx nHeight = none ↔ SpendsBeyond checks tx := by
  obtain ⟨delegated, network, waiting, lastOut, before, other, rest, layout, unlike, unpaid⟩ := weighs
  unfold freeOutputRead SpendsBeyond
  rw [layout]
  simp only [delegated, network, waiting, unlike, unpaid, Bool.not_true, Bool.not_false, Bool.false_eq_true, if_true, if_false]
  cases tx.vin.head? with
  | none => simp
  | some txin =>
    cases found : checks.getTransaction txin.prevout.hash with
    | none => simp [found]
    | some txPrev =>
      cases out : txPrev.vout[txin.prevout.n]? with
      | none => simp [found, List.getElem?_eq_none_iff.mp out]
      | some _ => simp [found, (List.getElem?_eq_some_iff.mp out).1]

def FreeOutputBeyond (s : ChainState) (checks : Checks) (block : CBlock) : Prop :=
  ∃ nHeight tx, s.paymentsChecked block = some nHeight ∧ block.vtx[1]? = some tx ∧ tx.isCoinStake = true ∧
    s.WeighsFreeOutput tx nHeight ∧ SpendsBeyond checks tx

def RewardMissing (s : ChainState) (block : CBlock) : Prop :=
  ∃ nHeight, s.paymentsChecked block = some nHeight ∧ s.isSynced = true ∧ nHeight ≠ 1040001 ∧
    nHeight > s.network.consensus.height_last_PoW ∧ block.vtx.length < 2

theorem freeOutputMissing_iff : s.freeOutputMissing checks block = true ↔ s.FreeOutputBeyond checks block := by
  unfold freeOutputMissing
  simp only [Option.any_eq_true, Bool.and_eq_true, Option.isNone_iff_eq_none]
  constructor
  · rintro ⟨nHeight, checked, staked, tx, second, missing⟩
    obtain ⟨_, same, coinstake⟩ := CBlock.isProofOfStake_iff.mp staked
    rw [second] at same
    cases same
    have weighs := weighsFreeOutput_of_none missing
    exact ⟨nHeight, tx, checked, second, coinstake, weighs, (freeOutputRead_none_iff weighs).mp missing⟩
  · rintro ⟨nHeight, tx, checked, second, coinstake, weighs, beyond⟩
    exact ⟨nHeight, checked, CBlock.isProofOfStake_iff.mpr ⟨tx, second, coinstake⟩, tx, second,
      (freeOutputRead_none_iff weighs).mpr beyond⟩

theorem beforePayments_withinBounds : WithinBounds (s.beforePayments checks block) := by
  unfold beforePayments
  refine withinBounds_bind.mpr ⟨withinBounds_refuse rfl, fun _ _ => ?_⟩
  refine withinBounds_bind.mpr ⟨withinBounds_refuse rfl, fun _ _ => ?_⟩
  refine withinBounds_bind.mpr ⟨withinBounds_refuse rfl, fun _ _ => ?_⟩
  refine withinBounds_bind.mpr ⟨withinBounds_refuse rfl, fun _ _ => ?_⟩
  exact withinBounds_bind.mpr ⟨checkBlockShape_withinBounds, fun _ _ => withinBounds_refuse rfl⟩

theorem beforePayments_vtx (passed : s.beforePayments checks block = .ok ()) : block.vtx ≠ [] := by
  obtain ⟨_, passed⟩ := Checked.after_refuse passed
  obtain ⟨_, passed⟩ := Checked.after_refuse passed
  obtain ⟨_, passed⟩ := Checked.after_refuse passed
  obtain ⟨_, passed⟩ := Checked.after_refuse passed
  obtain ⟨_, shape, _⟩ := Checked.bind_ok passed
  exact checkBlockShape_vtx shape

theorem afterPayments_withinBounds : WithinBounds (s.afterPayments checks block) :=
  withinBounds_bind.mpr ⟨withinBounds_all checkTransaction_withinBounds, fun _ _ => withinBounds_refuse rfl⟩

theorem isBlockPayeeValid_withinBounds (present : (s.rewardTx block nHeight).isSome = true) :
    WithinBounds (s.isBlockPayeeValid block nHeight) := by
  obtain ⟨txNew, found⟩ := Option.isSome_iff_exists.mp present
  unfold isBlockPayeeValid
  rw [found]
  dsimp only
  repeat' split
  all_goals exact withinBounds_ok _

theorem isBlockPayeeValid_withinBounds_iff (filled : block.vtx ≠ []) :
    WithinBounds (s.isBlockPayeeValid block nHeight) ↔
      ¬(s.isSynced = true ∧ nHeight ≠ 1040001 ∧ nHeight > s.network.consensus.height_last_PoW ∧ block.vtx.length < 2) := by
  have one : 0 < block.vtx.length := List.length_pos_iff.mpr filled
  constructor
  · rintro within ⟨synced, usual, staking, short⟩
    have missing : s.rewardTx block nHeight = none := by
      rw [rewardTx, if_pos staking]
      exact List.getElem?_eq_none_iff.mpr (by omega)
    have aborts : s.isBlockPayeeValid block nHeight = .error (.abort "block.vtx[1]") := by
      simp [isBlockPayeeValid, synced, usual, missing]
    exact absurd (within _ aborts) nofun
  · intro fine
    by_cases synced : s.isSynced = true
    swap
    · simp [isBlockPayeeValid, synced, withinBounds_ok]
    by_cases usual : nHeight = 1040001
    · simp [isBlockPayeeValid, usual, synced, withinBounds_ok]
    apply isBlockPayeeValid_withinBounds
    unfold rewardTx
    split
    · next staking =>
      have long : ¬block.vtx.length < 2 := fun short => fine ⟨synced, usual, staking, short⟩
      exact Option.isSome_iff_exists.mpr ⟨_, List.getElem?_eq_getElem (by omega)⟩
    · exact Option.isSome_iff_exists.mpr ⟨_, List.getElem?_eq_getElem one⟩

theorem isProofOfStake_length (staked : block.isProofOfStake = true) : 2 ≤ block.vtx.length := by
  obtain ⟨_, second, _⟩ := CBlock.isProofOfStake_iff.mp staked
  have inside := (List.getElem?_eq_some_iff.mp second).1
  omega

theorem checkBlockPayments_withinBounds_iff (filled : block.vtx ≠ []) :
    WithinBounds (s.checkBlockPayments checks block) ↔ ¬s.RewardMissing block := by
  unfold checkBlockPayments RewardMissing
  cases s.paymentsChecked block with
  | none => simp [withinBounds_ok]
  | some nHeight =>
    have payee := @isBlockPayeeValid_withinBounds_iff s block nHeight filled
    simp only [Option.some.injEq, exists_eq_left', ← payee]
    by_cases cheated : (block.isProofOfStake && (block.vtx[1]?).any fun tx => !s.checkColdStakeFreeOutput checks tx nHeight) = true
    · -- a coinstake is refused for its outputs, and its block has a second transaction
      have long := isProofOfStake_length (Bool.and_eq_true_iff.mp cheated).1
      have inside := payee.mpr fun short => absurd short.2.2.2 (by omega)
      rw [cheated]
      exact ⟨fun _ => inside, fun _ => withinBounds_error.mpr rfl⟩
    · rw [Bool.not_eq_true _ |>.mp cheated, Checked.refuse_false, Checked.ok_bind, withinBounds_bind]
      refine ⟨And.left, fun inside => ⟨inside, fun checked _ => ?_⟩⟩
      exact withinBounds_bind.mpr ⟨withinBounds_refuse rfl, fun _ _ => withinBounds_ok _⟩

theorem readBlock_withinBounds_iff : WithinBounds (s.readBlock checks block) ↔
    (s.beforePayments checks block = .ok () → ¬s.FreeOutputBeyond checks block ∧ ¬s.RewardMissing block) := by
  unfold readBlock
  rw [withinBounds_bind, and_iff_right beforePayments_withinBounds]
  constructor
  · intro within passed
    have within := within () passed
    have present : s.freeOutputMissing checks block = false := by
      by_contra missing
      rw [Bool.not_eq_false _ |>.mp missing] at within
      exact absurd (within _ rfl) nofun
    rw [present, Checked.refuse_false, Checked.ok_bind, withinBounds_bind,
      checkBlockPayments_withinBounds_iff (beforePayments_vtx passed)] at within
    refine ⟨fun beyond => ?_, within.1⟩
    rw [freeOutputMissing_iff.mpr beyond] at present
    cases present
  · intro fine _ passed
    obtain ⟨inside, paid⟩ := fine passed
    have present : s.freeOutputMissing checks block = false := by
      by_contra missing
      exact inside (freeOutputMissing_iff.mp (Bool.not_eq_false _ |>.mp missing))
    rw [present, Checked.refuse_false, Checked.ok_bind, withinBounds_bind,
      checkBlockPayments_withinBounds_iff (beforePayments_vtx passed)]
    exact ⟨paid, fun _ _ => withinBounds_bind.mpr ⟨afterPayments_withinBounds, fun _ _ => withinBounds_ok _⟩⟩

theorem readBlock_vin {budget : CBudgetManager} (passed : s.readBlock checks block = .ok budget) :
    ∀ tx ∈ block.vtx, tx.vin ≠ [] := by
  obtain ⟨_, _, passed⟩ := Checked.bind_ok passed
  obtain ⟨_, passed⟩ := Checked.after_refuse passed
  obtain ⟨_, _, passed⟩ := Checked.bind_ok passed
  obtain ⟨_, after, _⟩ := Checked.bind_ok passed
  obtain ⟨_, transactions, _⟩ := Checked.bind_ok after
  exact fun tx mem => checkTransaction_vin (Checked.all_ok transactions tx mem)

end ChainState

theorem initFromTxIn_nPosition {stake : CSchStake} (found : CSchStake.initFromTxIn node chainActive txin = some stake) :
    stake.nPosition = txin.prevout.n := by
  unfold CSchStake.initFromTxIn at found
  simp only [Option.bind_eq_bind, Option.bind_eq_some_iff] at found
  obtain ⟨_, _, _, _, found⟩ := found
  split at found
  · cases found
    rfl
  · cases found

section
variable {crypto : Crypto} {node : StakeNode} {chainActive : CChain} {block : CBlock} {pindexPrev : CBlockIndex}

/-- The coinstake of a block, its first input, and the transaction of the output that input names, found in the active chain. -/
structure Staking (node : StakeNode) (chainActive : CChain) (block : CBlock) (pindexPrev : CBlockIndex) (tx : CTransaction)
    (txin : CTxIn) (stake : CSchStake) : Prop where
  parent : block.hashPrevBlock = pindexPrev.hash
  second : block.vtx[1]? = some tx
  coinstake : tx.isCoinStake = true
  first : tx.vin.head? = some txin
  found : CSchStake.initFromTxIn node chainActive txin = some stake

/-- The staked output is old enough and its transaction is not null, and that transaction has fewer outputs than the coinstake's
first input asks for. -/
def StakedBeyond (node : StakeNode) (chainActive : CChain) (block : CBlock) (pindexPrev : CBlockIndex) : Prop :=
  ∃ tx txin stake, Staking node chainActive block pindexPrev tx txin stake ∧
    stake.contextCheck node.network (pindexPrev.nHeight + 1) block.nTime = true ∧
    (stake.txFrom.vin.isEmpty && stake.txFrom.vout.isEmpty) = false ∧ stake.txFrom.vout.length ≤ txin.prevout.n

theorem StakedBeyond.isProofOfStake (beyond : StakedBeyond node chainActive block pindexPrev) : block.isProofOfStake = true := by
  obtain ⟨tx, _, _, staking, _⟩ := beyond
  exact CBlock.isProofOfStake_iff.mpr ⟨tx, staking.second, staking.coinstake⟩

theorem loadStakeInput_ok {stake : CSchStake} (staking : Staking node chainActive block pindexPrev tx txin stake) :
    loadStakeInput node chainActive block pindexPrev = .ok (tx, txin, stake) := by
  obtain ⟨coinbase, others, layout⟩ := CBlock.vtx_of_second staking.second
  obtain ⟨first, inputs, filled⟩ := CTransaction.isCoinStake_vin staking.coinstake
  have same : txin = first := by simpa [filled] using staking.first.symm
  subst same
  simp [loadStakeInput, staking.parent, layout, staking.coinstake, filled, staking.found]

theorem loadStakeInput_refused_or : loadStakeInput node chainActive block pindexPrev = .error .initialization ∨
    ∃ tx txin stake, Staking node chainActive block pindexPrev tx txin stake := by
  by_cases parent : block.hashPrevBlock = pindexPrev.hash
  swap
  · have differs : decide (block.hashPrevBlock ≠ pindexPrev.hash) = true := decide_eq_true parent
    exact Or.inl (by rw [loadStakeInput, differs]; rfl)
  have same : decide (block.hashPrevBlock ≠ pindexPrev.hash) = false := by simp [parent]
  rw [loadStakeInput, same, Checked.refuse_false, Checked.ok_bind]
  match layout : block.vtx with
  | [] => exact Or.inl rfl
  | [_] => exact Or.inl rfl
  | coinbase :: tx :: others =>
    dsimp only
    cases coinstake : tx.isCoinStake with
    | false => exact Or.inl rfl
    | true =>
      obtain ⟨txin, inputs, filled⟩ := CTransaction.isCoinStake_vin coinstake
      rw [filled, Bool.not_true, Checked.refuse_false, Checked.ok_bind]
      dsimp only
      cases found : CSchStake.initFromTxIn node chainActive txin with
      | none => exact Or.inl rfl
      | some stake => exact Or.inr ⟨tx, txin, stake, parent, by rw [layout]; rfl, coinstake, by rw [filled]; rfl, found⟩

theorem checkProofOfStake_abort_iff :
    checkProofOfStake crypto node chainActive block pindexPrev = .error .abort ↔ StakedBeyond node chainActive block pindexPrev := by
  rcases @loadStakeInput_refused_or node chainActive block pindexPrev with refused | ⟨tx, txin, stake, staking⟩
  · rw [checkProofOfStake, refused]
    refine ⟨nofun, fun ⟨tx, txin, stake, staking, _⟩ => ?_⟩
    rw [loadStakeInput_ok staking] at refused
    cases refused
  have loaded := loadStakeInput_ok staking
  have only : StakedBeyond node chainActive block pindexPrev ↔
      stake.contextCheck node.network (pindexPrev.nHeight + 1) block.nTime = true ∧
        (stake.txFrom.vin.isEmpty && stake.txFrom.vout.isEmpty) = false ∧ stake.txFrom.vout.length ≤ txin.prevout.n := by
    constructor
    · rintro ⟨tx', txin', stake', staking', rest⟩
      have loaded' := loadStakeInput_ok staking'
      rw [loaded] at loaded'
      cases loaded'
      exact rest
    · exact fun rest => ⟨tx, txin, stake, staking, rest⟩
  rw [only, checkProofOfStake, loaded, Checked.ok_bind]
  dsimp only
  cases old : stake.contextCheck node.network (pindexPrev.nHeight + 1) block.nTime with
  | false => exact ⟨nofun, fun both => nomatch both.1⟩
  | true =>
    rw [Bool.not_true, Checked.refuse_false, Checked.ok_bind]
    cases null : stake.txFrom.vin.isEmpty && stake.txFrom.vout.isEmpty with
    | true => exact ⟨nofun, fun both => nomatch both.2.1⟩
    | false =>
      rw [Checked.refuse_false, Checked.ok_bind]
      cases out : stake.txFrom.vout[txin.prevout.n]? with
      | none => exact ⟨fun _ => ⟨rfl, rfl, List.getElem?_eq_none_iff.mp out⟩, fun _ => rfl⟩
      | some o =>
        have inside := (List.getElem?_eq_some_iff.mp out).1
        refine ⟨fun aborts => ?_, fun both => absurd both.2.2 (by omega)⟩
        dsimp only at aborts
        split at aborts
        · cases aborts
        · rw [CStakeKernel.make, initFromTxIn_nPosition staking.found, out] at aborts
          dsimp only [Option.map_some] at aborts
          cases (Checked.refuse_error aborts).2

end

structure HeaderChecks where
  checkBlockSignature : CBlock → Bool
  /-- `BLOCK_FAILED_MASK`. -/
  failed : CBlockIndex → Bool
  /-- A failed block that is a checkpoint is reconsidered. -/
  reconsidered : CBlockIndex → Bool
  checkWork : CBlock → CBlockIndex → Bool
  contextualCheckBlockHeader : CBlock → CBlockIndex → Bool

structure ReceivingNode where
  chainActive : CChain
  chain : ChainState
  stake : StakeNode
  checks : Checks
  headers : HeaderChecks
  tip : chain.tip = chainActive.vChain.getLast?
  network : stake.network = chain.network
  index : stake.mapBlockIndex = chain.mapBlockIndex
  transactions : checks.getTransaction = fun hash => (stake.getTransaction chainActive hash).map Prod.fst

namespace ReceivingNode

variable (node : ReceivingNode) (block : CBlock) (pindexPrev : CBlockIndex) (crypto : Crypto)

/-- A header that is new gets a modifier; the second version of it comes from the coinstake's first input. -/
def addToBlockIndex : Except Reject Unit :=
  if node.chain.network.consensus.isStakeModifierV2 (pindexPrev.nHeight + 1) then
    match block.vtx[1]?.bind fun tx => tx.vin.head? with
    | none => .error (.abort "block.vtx[1].vin[0]")
    | some _ => .ok ()
  else .ok ()

def acceptBlockHeader : Except Reject Unit :=
  match node.chain.mapBlockIndex.lookup block.hash with
  | some pindex => refuse (node.headers.failed pindex) (.invalid "duplicate")
  | none => do
    refuse (!node.checks.checkBlockHeader block false) (.invalid "")
    refuse (!node.headers.contextualCheckBlockHeader block pindexPrev) (.invalid "")
    node.addToBlockIndex block pindexPrev

def acceptProofOfStake (block : CBlock) (pindexPrev : CBlockIndex) : Except Reject Unit :=
  if block.isProofOfStake then
    match checkProofOfStake crypto node.stake node.chainActive block pindexPrev with
    | .ok _ => .ok ()
    | .error .abort => .error (.abort "txPrev.vout[n]")
    | .error _ => .error (.dos 100 "")
  else .ok ()

/-- `AcceptBlock` up to the entry in the block index. The genesis block has no parent to read. -/
def acceptBlock (block : CBlock) : Except Reject Unit :=
  if block.hash = node.chain.hashGenesisBlock then .ok ()
  else match node.chain.mapBlockIndex.lookup block.hashPrevBlock with
    | none => .error (.dos 0 "bad-prevblk")
    | some pindexPrev =>
      if node.headers.failed pindexPrev then refuse (!node.headers.reconsidered pindexPrev) (.dos 100 "bad-prevblk")
      else do
        refuse (!node.headers.checkWork block pindexPrev) (.invalid "")
        node.acceptProofOfStake crypto block pindexPrev
        node.acceptBlockHeader block pindexPrev

def checkBlock : Except Reject CBudgetManager := node.chain.readBlock node.checks block

/-- `ProcessNewBlock` for a block of a peer. The result of `CheckBlock` is looked at last. -/
def processNewBlock (block : CBlock) : Except Reject Unit :=
  match node.checkBlock block with
  | .error (.abort reason) => .error (.abort reason)
  | checked => do
    refuse (!node.headers.checkBlockSignature block) (.invalid "")
    refuse (decide (block.hash ≠ node.chain.hashGenesisBlock) && (node.chain.mapBlockIndex.lookup block.hashPrevBlock).isNone)
      (.invalid "")
    let _ ← checked
    node.acceptBlock crypto block

/-- `ProcessNewBlock` hands the block over and `AcceptBlock` finds its parent and its work in order. -/
structure Accepts (node : ReceivingNode) (block : CBlock) (pindexPrev : CBlockIndex) : Prop where
  checked : (node.checkBlock block).isOk = true
  signed : node.headers.checkBlockSignature block = true
  later : block.hash ≠ node.chain.hashGenesisBlock
  parent : node.chain.mapBlockIndex.lookup block.hashPrevBlock = some pindexPrev
  valid : node.headers.failed pindexPrev = false
  work : node.headers.checkWork block pindexPrev = true

structure ModifierMissing (node : ReceivingNode) (block : CBlock) (pindexPrev : CBlockIndex) : Prop where
  unknown : node.chain.mapBlockIndex.lookup block.hash = none
  header : node.checks.checkBlockHeader block false = true
  contextual : node.headers.contextualCheckBlockHeader block pindexPrev = true
  secondVersion : node.chain.network.consensus.isStakeModifierV2 (pindexPrev.nHeight + 1) = true
  short : block.vtx.length < 2

variable {node : ReceivingNode} {crypto : Crypto} {block : CBlock} {pindexPrev : CBlockIndex}

theorem addToBlockIndex_withinBounds_iff (inputs : ∀ tx ∈ block.vtx, tx.vin ≠ []) :
    WithinBounds (node.addToBlockIndex block pindexPrev) ↔
      ¬(node.chain.network.consensus.isStakeModifierV2 (pindexPrev.nHeight + 1) = true ∧ block.vtx.length < 2) := by
  unfold addToBlockIndex
  split
  · next second =>
    cases found : block.vtx[1]? with
    | none =>
      have short := List.getElem?_eq_none_iff.mp found
      exact ⟨fun within => absurd (within _ rfl) nofun, fun fine => absurd ⟨second, by omega⟩ fine⟩
    | some tx =>
      obtain ⟨inside, here⟩ := List.getElem?_eq_some_iff.mp found
      obtain ⟨txin, rest, filled⟩ := List.exists_cons_of_ne_nil (inputs tx (here ▸ List.getElem_mem inside))
      simp only [Option.bind_some, filled, List.head?_cons]
      exact ⟨fun _ both => absurd both.2 (by omega), fun _ => withinBounds_ok ()⟩
  · next first => exact ⟨fun _ both => first both.1, fun _ => withinBounds_ok ()⟩

theorem acceptBlockHeader_withinBounds_iff (inputs : ∀ tx ∈ block.vtx, tx.vin ≠ []) :
    WithinBounds (node.acceptBlockHeader block pindexPrev) ↔ ¬node.ModifierMissing block pindexPrev := by
  have added := @addToBlockIndex_withinBounds_iff node block pindexPrev inputs
  unfold acceptBlockHeader
  cases known : node.chain.mapBlockIndex.lookup block.hash with
  | some pindex =>
    refine ⟨fun _ missing => ?_, fun _ => withinBounds_refuse rfl⟩
    rw [missing.unknown] at known
    cases known
  | none =>
    dsimp only
    cases header : node.checks.checkBlockHeader block false with
    | false => exact ⟨fun _ missing => absurd (header.symm.trans missing.header) nofun, fun _ => withinBounds_error.mpr rfl⟩
    | true =>
      rw [Bool.not_true, Checked.refuse_false, Checked.ok_bind]
      cases contextual : node.headers.contextualCheckBlockHeader block pindexPrev with
      | false =>
        exact ⟨fun _ missing => absurd (contextual.symm.trans missing.contextual) nofun, fun _ => withinBounds_error.mpr rfl⟩
      | true =>
        rw [Bool.not_true, Checked.refuse_false, Checked.ok_bind, added]
        exact not_congr ⟨fun both => ⟨known, header, contextual, both.1, both.2⟩,
          fun missing => ⟨missing.secondVersion, missing.short⟩⟩

theorem acceptProofOfStake_withinBounds_iff : WithinBounds (node.acceptProofOfStake crypto block pindexPrev) ↔
    ¬StakedBeyond node.stake node.chainActive block pindexPrev := by
  unfold acceptProofOfStake
  cases staked : block.isProofOfStake with
  | false =>
    refine ⟨fun _ beyond => ?_, fun _ => withinBounds_ok ()⟩
    rw [beyond.isProofOfStake] at staked
    cases staked
  | true =>
    rw [← @checkProofOfStake_abort_iff crypto, if_pos rfl]
    split
    · next passed => simp [passed, withinBounds_ok]
    · next aborted => exact ⟨fun within => absurd (within _ rfl) nofun, fun other => absurd aborted other⟩
    · next e other failed =>
      refine ⟨fun _ aborted => other ?_, fun _ => withinBounds_error.mpr rfl⟩
      rw [failed] at aborted
      cases aborted
      rfl

theorem ModifierMissing.not_isProofOfStake (missing : node.ModifierMissing block pindexPrev) : block.isProofOfStake = false := by
  by_contra staked
  have long := ChainState.isProofOfStake_length (Bool.not_eq_false _ |>.mp staked)
  have short := missing.short
  omega

theorem acceptOn_withinBounds_iff (inputs : ∀ tx ∈ block.vtx, tx.vin ≠ []) :
    WithinBounds (do
      node.acceptProofOfStake crypto block pindexPrev
      node.acceptBlockHeader block pindexPrev) ↔
    ¬StakedBeyond node.stake node.chainActive block pindexPrev ∧ ¬node.ModifierMissing block pindexPrev := by
  rw [withinBounds_bind, acceptBlockHeader_withinBounds_iff inputs, acceptProofOfStake_withinBounds_iff]
  refine ⟨fun both => ⟨both.1, fun missing => ?_⟩, fun both => ⟨both.1, fun _ _ => both.2⟩⟩
  -- the block is no proof of stake, so its header is reached
  have passed : node.acceptProofOfStake crypto block pindexPrev = .ok () := by
    rw [acceptProofOfStake, missing.not_isProofOfStake]
    rfl
  exact both.2 () passed missing

theorem acceptBlock_withinBounds_iff (inputs : ∀ tx ∈ block.vtx, tx.vin ≠ []) (checked : (node.checkBlock block).isOk = true)
    (signed : node.headers.checkBlockSignature block = true) :
    WithinBounds (node.acceptBlock crypto block) ↔ ∀ pindexPrev, node.Accepts block pindexPrev →
      ¬StakedBeyond node.stake node.chainActive block pindexPrev ∧ ¬node.ModifierMissing block pindexPrev := by
  unfold acceptBlock
  by_cases genesis : block.hash = node.chain.hashGenesisBlock
  · rw [if_pos genesis]
    exact ⟨fun _ _ accepts => absurd genesis accepts.later, fun _ => withinBounds_ok ()⟩
  rw [if_neg genesis]
  cases parent : node.chain.mapBlockIndex.lookup block.hashPrevBlock with
  | none => exact ⟨fun _ _ accepts => absurd (parent.symm.trans accepts.parent) nofun, fun _ => withinBounds_error.mpr rfl⟩
  | some prev =>
    have same {pindexPrev : CBlockIndex} (accepts : node.Accepts block pindexPrev) : prev = pindexPrev :=
      Option.some.inj (parent.symm.trans accepts.parent)
    dsimp only
    cases failed : node.headers.failed prev with
    | true =>
      refine ⟨fun _ _ accepts => absurd accepts.valid ?_, fun _ => withinBounds_refuse rfl⟩
      rw [← same accepts, failed]
      nofun
    | false =>
      rw [if_neg nofun]
      cases work : node.headers.checkWork block prev with
      | false =>
        refine ⟨fun _ _ accepts => absurd accepts.work ?_, fun _ => withinBounds_error.mpr rfl⟩
        rw [← same accepts, work]
        nofun
      | true =>
        rw [Bool.not_true, Checked.refuse_false, Checked.ok_bind, acceptOn_withinBounds_iff inputs]
        refine ⟨fun inside _ accepts => same accepts ▸ inside, fun every => every prev ?_⟩
        exact ⟨checked, signed, genesis, parent, failed, work⟩

theorem processNewBlock_withinBounds_iff : WithinBounds (node.processNewBlock crypto block) ↔
    WithinBounds (node.checkBlock block) ∧ ∀ pindexPrev, node.Accepts block pindexPrev →
      ¬StakedBeyond node.stake node.chainActive block pindexPrev ∧ ¬node.ModifierMissing block pindexPrev := by
  unfold processNewBlock
  split
  · next reason aborted =>
    exact ⟨fun within => absurd (within _ rfl) nofun, fun both => absurd (both.1 _ aborted) nofun⟩
  next other =>
  have within : WithinBounds (node.checkBlock block) := by
    intro e failed
    cases e with
    | abort reason => exact absurd failed (other reason)
    | _ => rfl
  rw [and_iff_right within]
  cases signed : node.headers.checkBlockSignature block with
  | false =>
    refine ⟨fun _ _ accepts => absurd accepts.signed ?_, fun _ => withinBounds_error.mpr rfl⟩
    rw [signed]
    nofun
  | true =>
    rw [Bool.not_true, Checked.refuse_false, Checked.ok_bind]
    cases orphan : decide (block.hash ≠ node.chain.hashGenesisBlock) &&
        (node.chain.mapBlockIndex.lookup block.hashPrevBlock).isNone with
    | true =>
      refine ⟨fun _ _ accepts => ?_, fun _ => withinBounds_error.mpr rfl⟩
      rw [accepts.parent, Bool.and_eq_true_iff] at orphan
      exact absurd orphan.2 nofun
    | false =>
      rw [Checked.refuse_false, Checked.ok_bind, withinBounds_bind, and_iff_right within]
      constructor
      · intro inside pindexPrev accepts
        cases passed : node.checkBlock block with
        | error e => exact absurd accepts.checked (by rw [passed]; nofun)
        | ok budget =>
          have inputs := ChainState.readBlock_vin passed
          exact (acceptBlock_withinBounds_iff inputs accepts.checked signed).mp (inside budget passed) pindexPrev accepts
      · intro every budget passed
        have inputs := ChainState.readBlock_vin passed
        exact (acceptBlock_withinBounds_iff inputs (by rw [passed]; rfl) signed).mpr every

/-- No check before these reads counts the outputs of the staked transaction, or ends proof of work. -/
theorem received_within_bounds_iff (node : ReceivingNode) (crypto : Crypto) (block : CBlock) :
    WithinBounds (node.processNewBlock crypto block) ↔
      (node.chain.beforePayments node.checks block = .ok () →
        ¬node.chain.FreeOutputBeyond node.checks block ∧ ¬node.chain.RewardMissing block) ∧
      ∀ pindexPrev, node.Accepts block pindexPrev →
        ¬StakedBeyond node.stake node.chainActive block pindexPrev ∧ ¬node.ModifierMissing block pindexPrev := by
  rw [processNewBlock_withinBounds_iff, checkBlock, ChainState.readBlock_withinBounds_iff]

end ReceivingNode

def startChain : CChain where
  vChain := [{ hash := 100, nHeight := 0 }, { hash := 101, pprev := some 100, nHeight := 1 },
    { hash := 102, pprev := some 101, nHeight := 2 }]
  heights := by
    intro nHeight pindex there
    match nHeight with
    | 0 | 1 | 2 => cases there; rfl
    | _ + 3 => cases there

def startIndex : StdMap uint256 CBlockIndex :=
  (AList.insert 102 { hash := 102, pprev := some 101, nHeight := 2 } ∅)
    |>.insert 101 { hash := 101, pprev := some 100, nHeight := 1 }
    |>.insert 500 { hash := 500, pprev := some 499, nHeight := 1040000 }

def firstReward : CTransaction :=
  { hash := 7, vin := [{ prevout := .null, scriptSig := [0x51, 0x51] }], vout := [{ nValue := 250, scriptPubKey := [0x51] }] }

def startStake : StakeNode where
  network := .main
  mapBlockIndex := startIndex
  readTxIndex := fun hash => if hash = 7 then some (firstReward, 101) else none

def startChecks : Checks where
  checkBlockHeader := fun _ _ => true
  merkleRootMatches := fun _ => true
  merkleTreeMutated := fun _ => false
  blockSize := fun _ => 400
  txSize := fun _ => 100
  getLegacySigOpCount := fun _ => 0
  p2shSigOps := fun _ _ => 0
  verifyScript := fun _ _ _ _ => true
  getTransaction := fun hash => (startStake.getTransaction startChain hash).map Prod.fst
  publicCoinsValid := fun _ => true
  zerocoinSpent := fun _ => 0

def startNode : ReceivingNode where
  chainActive := startChain
  stake := startStake
  checks := startChecks
  chain :=
    { network := .main, hashGenesisBlock := 100, mapBlockIndex := startIndex, isInitialBlockDownload := true
      tip := some { hash := 102, pprev := some 101, nHeight := 2 } }
  headers :=
    { checkBlockSignature := fun _ => true, failed := fun _ => false, reconsidered := fun _ => false
      checkWork := fun _ _ => true, contextualCheckBlockHeader := fun _ _ => true }
  tip := rfl
  network := rfl
  index := rfl
  transactions := rfl

def sixthOutputStaked : CBlock where
  hash := 103
  hashPrevBlock := 102
  vtx := [{ hash := 8, vin := [{ prevout := .null, scriptSig := [0x53, 0x51] }], vout := [{ nValue := 0, scriptPubKey := [] }] },
    { hash := 9, vin := [{ prevout := ⟨7, 5⟩ }], vout := [{ nValue := 0, scriptPubKey := [] }, { nValue := 250, scriptPubKey := [0x51] }] }]

def coinbaseAlone : CBlock where
  hash := 501
  hashPrevBlock := 500
  vtx := [{ hash := 10, vin := [{ prevout := .null, scriptSig := [0x53, 0x51] }], vout := [{ nValue := 0, scriptPubKey := [0x51] }] }]

theorem received_reads_beyond :
    (startNode.checkBlock sixthOutputStaked).isOk = true ∧
      (∀ crypto, ¬WithinBounds (startNode.processNewBlock crypto sixthOutputStaked)) ∧
    (startNode.checkBlock coinbaseAlone).isOk = true ∧
      ∀ crypto, ¬WithinBounds (startNode.processNewBlock crypto coinbaseAlone) := by
  refine ⟨by decide, fun crypto within => ?_, by decide, fun crypto within => ?_⟩
  · exact absurd (within (.abort "txPrev.vout[n]") rfl) nofun
  · exact absurd (within (.abort "block.vtx[1].vin[0]") rfl) nofun

end SchillingCoin
