import SchillingCoin.Mining.Coinstake
import SchillingCoin.Stake.Staker

/-!
The search of `CreateCoinStake` with the time that `Stake` moves, and what a coinstake that it reports is made of.
-/

namespace SchillingCoin

structure StakeTurn extends StakeCall where
  /-- `chainActive.Height()`. -/
  nHeight : Nat
  isLocked : Bool
  shutdownRequested : Bool

namespace StakeTurn

variable (turn : StakeTurn)

def prevout : COutPoint := ⟨turn.out.tx.hash, turn.out.i⟩

def txOut : CTxOut := turn.out.tx.vout.getD turn.out.i .null

def ends (pindexPrev : CBlockIndex) : Bool :=
  turn.nHeight != pindexPrev.nHeight || turn.isLocked || turn.shutdownRequested

def stakeTry (fKernelFound : Bool) : StakeTry := { prevout := turn.prevout, out := turn.txOut, fKernelFound }

end StakeTurn

/-- What `CreateCoinStake` is called with, and the state of the node. -/
structure StakeRequest where
  crypto : Crypto
  node : StakeNode
  chainActive : CChain
  pindexPrev : CBlockIndex
  nBits : BitVec 32
  payees : PayeeState
  wallet : StakeWallet

namespace StakeRequest

variable (r : StakeRequest)

def template (nHeight : Nat) : TemplateState := { network := r.node.network, nHeight, payees := r.payees, wallet := r.wallet }

variable (turn : StakeTurn) (nTxNewTime : Int) (scriptPubKey : CScript)

def stakeAt : Bool × Int :=
  stake r.crypto r.node r.chainActive r.pindexPrev r.nBits turn.toStakeCall nTxNewTime

/-- The transaction after the turn of a kernel, where it comes so far. `none` at the outer level goes on with the next coin. -/
def turnOutputs : Option (Option CTransaction) :=
  let s := r.template turn.nHeight
  (r.wallet.createTxOuts turn.txOut.scriptPubKey (turn.txOut.nValue + s.network.getBlockValue s.nHeight)).map fun vout =>
    (s.coinStakeOutputs (turn.stakeTry true) vout).map fun txNew => { txNew with vin := [{ prevout := turn.prevout }] }

def search : (fKernelFound : Bool) → List StakeTurn → (nTxNewTime : Int) → Option (CTransaction × Int)
  | fKernelFound, [], nTxNewTime => if fKernelFound then some ({ hash := 0, vin := [], vout := [.empty] }, nTxNewTime) else none
  | _, turn :: rest, nTxNewTime =>
    if turn.ends r.pindexPrev then none
    else
      let found := r.stakeAt turn nTxNewTime
      if !found.1 then search false rest found.2
      else match r.turnOutputs turn with
        | none => search true rest found.2
        | some txNew => txNew.map fun txNew => (txNew, found.2)

/-- `CreateCoinStake` over the stakeable coins, with `nTxNewTime` afterwards. Every input is signed. -/
def createCoinStake (turns : List StakeTurn) (nTxNewTime : Int) : Option (CTransaction × Int) :=
  (r.search false turns nTxNewTime).bind fun made =>
    ((r.template r.pindexPrev.nHeight).signInputs made.1).map fun txNew => (txNew, made.2)

def budgetPayment : Int :=
  if r.payees.paysBudget r.pindexPrev.nHeight then
    ((r.payees.payeeOutput r.node.network r.pindexPrev.nHeight).map CTxOut.nValue).getD 0
  else 0

/-- The coin of a turn whose kernel `Stake` accepted at the time, and that passes the check of the kernel there. -/
def Accepted : Prop :=
  (∃ before, r.stakeAt turn before = (true, nTxNewTime)) ∧
    ∃ stakeInput, CSchStake.ofOutput r.node r.chainActive turn.out = some stakeInput ∧
      kernelPasses r.crypto r.node.network r.chainActive r.pindexPrev stakeInput r.nBits (nTxNewTime % 2 ^ 32).toNat = true

structure Produced (turns : List StakeTurn) (txNew : CTransaction) (nTxNewTime : Int) : Prop where
  isCoinStake : txNew.isCoinStake = true
  input : ∃ turn ∈ turns, txNew.vin.map CTxIn.prevout = [turn.prevout] ∧ r.Accepted turn nTxNewTime ∧
    (txNew.vout.map CTxOut.nValue).sum =
      turn.txOut.nValue + r.node.network.getBlockValue r.pindexPrev.nHeight + r.budgetPayment

/-- The turns with what `Stake` finds in them, as the time moves. -/
def tried : List StakeTurn → Int → List (StakeTurn × Bool)
  | [], _ => []
  | turn :: rest, nTxNewTime => (turn, (r.stakeAt turn nTxNewTime).1) :: tried rest (r.stakeAt turn nTxNewTime).2

/-- No turn ends the loop, no kernel that is found has outputs that can be made, and the last coin has such a kernel. -/
def LastFails (turns : List StakeTurn) (nTxNewTime : Int) : Prop :=
  (∀ p ∈ r.tried turns nTxNewTime, p.1.ends r.pindexPrev = false ∧
    (p.2 = true → r.wallet.stakeScript p.1.txOut.scriptPubKey = none)) ∧
  ∃ p, (r.tried turns nTxNewTime).getLast? = some p ∧ p.2 = true

variable {r}

theorem notMint_pushData (key opcodes : CScript) : CScript.isZerocoinMint (CScript.pushData key ++ opcodes) = false := by
  have head : (CScript.pushData key ++ opcodes).head? ≠ some OP_ZEROCOINMINT := by
    unfold CScript.pushData
    split_ifs with short
    · intro same
      have size : UInt8.ofNat key.length = OP_ZEROCOINMINT := by simpa using same
      have := congrArg UInt8.toNat size
      rw [UInt8.toNat_ofNat', Nat.mod_eq_of_lt (by omega)] at this
      rw [this] at short
      exact absurd short (by decide)
    · simp [OP_PUSHDATA1, OP_ZEROCOINMINT]
    · simp [OP_PUSHDATA2, OP_ZEROCOINMINT]
    · simp [OP_PUSHDATA4, OP_ZEROCOINMINT]
  simpa [CScript.isZerocoinMint, CScript.startsWithOpcode] using head

theorem stakeScript_notMint {w : StakeWallet} (solver : w.solver = CScript.solver) {scriptPubKey : CScript}
    (script : w.stakeScript kernel = some scriptPubKey) : CScript.isZerocoinMint scriptPubKey = false := by
  have kept : ∀ type vSolutions, CScript.solver kernel = some (type, vSolutions) → type ≠ .TX_ZEROCOINMINT → type ≠ .TX_SCRIPTHASH →
      CScript.isZerocoinMint kernel = false := by
    intro type vSolutions solved notMint notHash
    by_contra isMint
    rw [Bool.not_eq_false] at isMint
    unfold CScript.solver at solved
    split at solved
    · cases solved
      exact notHash rfl
    · split at solved
      · exact nomatch solved
      · cases solved
        exact notMint rfl
  unfold StakeWallet.stakeScript at script
  rw [solver] at script
  split at script
  · obtain ⟨key, _, rfl⟩ := Option.map_eq_some_iff.mp script
    exact notMint_pushData key _
  · next hash _ solved =>
    obtain ⟨key, _, rfl⟩ := Option.map_eq_some_iff.mp script
    exact kept _ _ solved (by decide) (by decide)
  · next solved =>
    obtain rfl := Option.some.inj script
    exact kept _ _ solved (by decide) (by decide)
  · exact nomatch script

theorem paidOutputs_sum {scriptPubKey : CScript} (notMint : CScript.isZerocoinMint scriptPubKey = false) :
    (((r.template r.pindexPrev.nHeight).paidOutputs (turn.stakeTry true) scriptPubKey).map CTxOut.nValue).sum =
      turn.txOut.nValue + r.node.network.getBlockValue r.pindexPrev.nHeight + r.budgetPayment := by
  have credit : (r.template r.pindexPrev.nHeight).stakeCredit (turn.stakeTry true) =
      turn.txOut.nValue + r.node.network.getBlockValue r.pindexPrev.nHeight := rfl
  unfold TemplateState.paidOutputs budgetPayment
  rw [List.map_append, List.sum_append, stakeOutputs_values, credit]
  show _ - r.payees.takenFromStake r.node.network r.pindexPrev.nHeight scriptPubKey +
    ((r.payees.payeeOutput r.node.network r.pindexPrev.nHeight).toList.map CTxOut.nValue).sum = _
  unfold PayeeState.takenFromStake
  rw [notMint, Bool.or_false]
  by_cases budget : r.payees.paysBudget r.pindexPrev.nHeight = true
  · rw [if_pos budget, if_pos budget]
    cases r.payees.payeeOutput r.node.network r.pindexPrev.nHeight <;> simp
  · unfold PayeeState.payeeOutput
    rw [if_neg budget, if_neg budget, if_neg budget]
    cases r.payees.masternodePayments.payeeToPay r.pindexPrev.nHeight r.payees.currentMasterNode <;> simp

/-- A coin as `AvailableCoins` lists it: the output exists, and no message has that many outputs that its number could be that of none. -/
structure WellFormed (turn : StakeTurn) : Prop where
  inside : turn.out.i < turn.out.tx.vout.length
  size : turn.out.tx.vout.length ≤ 0x02000000

theorem turnOutputs_produced (solver : r.wallet.solver = CScript.solver) {turn : StakeTurn} (member : turn ∈ turns)
    (coin : WellFormed turn) (runs : turn.ends r.pindexPrev = false) {nTxNewTime : Int}
    (found : r.stakeAt turn before = (true, nTxNewTime)) {txNew : CTransaction}
    (made : r.turnOutputs turn = some (some unsigned))
    (signed : (r.template r.pindexPrev.nHeight).signInputs unsigned = some txNew) : r.Produced turns txNew nTxNewTime := by
  have height : turn.nHeight = r.pindexPrev.nHeight := by
    unfold StakeTurn.ends at runs
    simp only [Bool.or_eq_false_iff, bne_eq_false_iff_eq] at runs
    exact runs.1.1
  unfold turnOutputs at made
  rw [height] at made
  obtain ⟨vout, created, outputs⟩ := Option.map_eq_some_iff.mp made
  obtain ⟨bare, filled, rfl⟩ := Option.map_eq_some_iff.mp outputs
  obtain ⟨scriptPubKey, script, _⟩ := Option.map_eq_some_iff.mp created
  have same := @TemplateState.coinStakeOutputs_eq (r.template r.pindexPrev.nHeight) _ _ _ (turn.stakeTry true) created script
    filled
  subst same
  obtain ⟨scriptSig, _, rfl⟩ := Option.map_eq_some_iff.mp signed
  have notNull : turn.prevout.isNull = false := by
    have := coin.inside
    have := coin.size
    unfold StakeTurn.prevout COutPoint.isNull
    rw [Bool.and_eq_false_iff]
    exact Or.inr (beq_eq_false_iff_ne.mpr (by dsimp only; omega))
  obtain ⟨first, rest, outputs⟩ : ∃ first rest, (r.template r.pindexPrev.nHeight).paidOutputs (turn.stakeTry true) scriptPubKey =
      first :: rest := by
    apply List.exists_cons_of_length_pos
    have shares := (r.template r.pindexPrev.nHeight).wallet.splitCount_bounds
      ((r.template r.pindexPrev.nHeight).stakeCredit (turn.stakeTry true))
    unfold TemplateState.paidOutputs
    rw [List.length_append, length_stakeOutputs shares.1]
    omega
  refine ⟨?_, turn, member, rfl, ⟨⟨before, found⟩, ?_⟩, ?_⟩
  · rw [outputs]
    simp only [CTransaction.isCoinStake, notNull, Bool.false_and, Bool.false_eq_true, if_false]
    rfl
  · obtain ⟨stakeInput, input, _, accepted⟩ := stake_found found
    refine ⟨stakeInput, input, ?_⟩
    split at accepted
    · exact accepted.2.2
    · obtain ⟨nTryTime, rfl, searched⟩ := accepted
      have passes := (searchKernel_some searched).2.2.1
      rw [← kernelPasses_mod] at passes
      have same : ((nTryTime : Int) % 2 ^ 32).toNat = nTryTime % 2 ^ 32 := by omega
      rw [same]
      exact passes
  · have sum := paidOutputs_sum (r := r) turn (stakeScript_notMint solver script)
    simpa [CTxOut.empty] using sum

theorem search_some {turns : List StakeTurn} {nTxNewTime : Int}
    (made : r.search fKernelFound turns nTxNewTime = some (txNew, nTime)) :
    (∃ turn ∈ turns, turn.ends r.pindexPrev = false ∧ (∃ before, r.stakeAt turn before = (true, nTime)) ∧
      r.turnOutputs turn = some (some txNew)) ∨
    (∀ p ∈ r.tried turns nTxNewTime, p.1.ends r.pindexPrev = false ∧
      (p.2 = true → r.wallet.stakeScript p.1.txOut.scriptPubKey = none)) ∧
      ((r.tried turns nTxNewTime).getLast?.map Prod.snd).getD fKernelFound = true := by
  induction turns generalizing fKernelFound nTxNewTime with
  | nil =>
    unfold search at made
    cases fKernelFound with
    | true => exact Or.inr ⟨fun p member => absurd member List.not_mem_nil, rfl⟩
    | false => exact nomatch made
  | cons turn rest ih =>
    -- A turn that the loop goes on from keeps what is known of the later ones.
    have goOn (flag : Bool) (runs : turn.ends r.pindexPrev = false) (kernel : (r.stakeAt turn nTxNewTime).1 = flag)
        (script : flag = true → r.wallet.stakeScript turn.txOut.scriptPubKey = none)
        (later : r.search flag rest (r.stakeAt turn nTxNewTime).2 = some (txNew, nTime)) :
        (∃ t ∈ turn :: rest, t.ends r.pindexPrev = false ∧ (∃ before, r.stakeAt t before = (true, nTime)) ∧
          r.turnOutputs t = some (some txNew)) ∨
        (∀ p ∈ r.tried (turn :: rest) nTxNewTime, p.1.ends r.pindexPrev = false ∧
          (p.2 = true → r.wallet.stakeScript p.1.txOut.scriptPubKey = none)) ∧
          ((r.tried (turn :: rest) nTxNewTime).getLast?.map Prod.snd).getD fKernelFound = true := by
      unfold tried
      rw [kernel]
      rcases ih later with ⟨t, member, made⟩ | ⟨none, last⟩
      · exact Or.inl ⟨t, List.mem_cons_of_mem _ member, made⟩
      · refine Or.inr ⟨fun p member => ?_, ?_⟩
        · rcases List.mem_cons.mp member with rfl | member
          · exact ⟨runs, script⟩
          · exact none p member
        · rw [List.getLast?_cons]
          cases ended : (r.tried rest (r.stakeAt turn nTxNewTime).2).getLast? with
          | none =>
            rw [ended] at last
            exact last
          | some p =>
            rw [ended] at last
            exact last
    unfold search at made
    by_cases ends : turn.ends r.pindexPrev = true
    · rw [if_pos ends] at made
      exact nomatch made
    · rw [if_neg ends] at made
      rw [Bool.not_eq_true] at ends
      dsimp only at made
      cases kernel : (r.stakeAt turn nTxNewTime).1 with
      | false =>
        rw [kernel] at made
        exact goOn false ends kernel (fun found => nomatch found) made
      | true =>
        rw [kernel] at made
        cases outputs : r.turnOutputs turn with
        | none =>
          rw [outputs] at made
          have script : r.wallet.stakeScript turn.txOut.scriptPubKey = none := by
            unfold turnOutputs StakeWallet.createTxOuts at outputs
            simpa using outputs
          exact goOn true ends kernel (fun _ => script) made
        | some result =>
          rw [outputs] at made
          obtain ⟨tx, isTx, same⟩ := Option.map_eq_some_iff.mp made
          obtain ⟨rfl, rfl⟩ := Prod.mk.inj same
          exact Or.inl ⟨turn, List.mem_cons_self, ends, ⟨nTxNewTime, by rw [← kernel]⟩, by rw [outputs, isTx]⟩

theorem search_unused (fKernelFound : Bool) {nTxNewTime : Int}
    (unused : ∀ p ∈ r.tried turns nTxNewTime, p.1.ends r.pindexPrev = false ∧ (p.2 = true → r.wallet.stakeScript p.1.txOut.scriptPubKey = none))
    (last : ((r.tried turns nTxNewTime).getLast?.map Prod.snd).getD fKernelFound = true) :
    ∃ nTime, r.search fKernelFound turns nTxNewTime = some ({ hash := 0, vin := [], vout := [.empty] }, nTime) := by
  induction turns generalizing fKernelFound nTxNewTime with
  | nil =>
    obtain rfl : fKernelFound = true := last
    exact ⟨nTxNewTime, rfl⟩
  | cons turn rest ih =>
    unfold tried at unused last
    obtain ⟨runs, script⟩ := unused _ List.mem_cons_self
    have later := ih (r.stakeAt turn nTxNewTime).1 (fun p member => unused p (List.mem_cons_of_mem _ member)) (by
      rw [List.getLast?_cons] at last
      cases ended : (r.tried rest (r.stakeAt turn nTxNewTime).2).getLast? with
      | none =>
        rw [ended] at last
        exact last
      | some p =>
        rw [ended] at last
        exact last)
    unfold search
    rw [if_neg (by rw [runs]; exact Bool.false_ne_true)]
    dsimp only
    cases kernel : (r.stakeAt turn nTxNewTime).1 with
    | false =>
      rw [kernel] at later
      exact later
    | true =>
      rw [kernel] at later
      have outputs : r.turnOutputs turn = none := by
        unfold turnOutputs StakeWallet.createTxOuts
        rw [script kernel]
        rfl
      rw [outputs]
      exact later

/-- What `CreateCoinStake` reports is a coinstake exactly where the last coin is not one whose kernel is found but whose outputs cannot be
made, with no coin before it that is used. -/
theorem coinstake_produced_iff (r : StakeRequest) (solver : r.wallet.solver = CScript.solver) (turns : List StakeTurn)
    (coins : ∀ turn ∈ turns, WellFormed turn) (nTxNewTime : Int) :
    (∀ txNew nTime, r.createCoinStake turns nTxNewTime = some (txNew, nTime) → r.Produced turns txNew nTime) ↔
      ¬ r.LastFails turns nTxNewTime := by
  constructor
  · rintro produced ⟨unused, p, last, kernel⟩
    obtain ⟨nTime, made⟩ := search_unused false unused (by rw [last]; exact kernel)
    have reported : r.createCoinStake turns nTxNewTime = some ({ hash := 0, vin := [], vout := [.empty] }, nTime) := by
      unfold createCoinStake
      rw [made]
      rfl
    exact Bool.false_ne_true (produced _ _ reported).isCoinStake
  · intro sound txNew nTime reported
    obtain ⟨⟨unsigned, time⟩, made, signed⟩ := Option.bind_eq_some_iff.mp reported
    obtain ⟨tx, isTx, same⟩ := Option.map_eq_some_iff.mp signed
    obtain ⟨rfl, rfl⟩ := Prod.mk.inj same
    rcases search_some made with ⟨turn, member, runs, ⟨before, found⟩, outputs⟩ | ⟨unused, last⟩
    · exact turnOutputs_produced solver member (coins turn member) runs found outputs isTx
    · refine absurd ⟨unused, ?_⟩ sound
      cases ended : (r.tried turns nTxNewTime).getLast? with
      | none =>
        rw [ended] at last
        exact nomatch last
      | some p =>
        rw [ended] at last
        exact ⟨p, rfl, last⟩

def coinOf : COutput := { tx := { hash := 0x51, vin := [], vout := [⟨100, scriptPubKey, -10⟩] }, i := 0 }

def oneTurn : StakeTurn where
  out := coinOf scriptPubKey
  getAdjustedTime := 1540198700
  chainActiveHeight _ := 0
  nHeight := 0
  isLocked := false
  shutdownRequested := false

def oneCoin : StakeRequest where
  crypto := lowHashCrypto
  node := { firstNode with readTxIndex := fun hash => if hash = 0x51 then some ((coinOf scriptPubKey).tx, 0x10) else none }
  chainActive := firstChain
  pindexPrev := firstBlock
  nBits := 0x1e0ffff0
  payees := {}
  wallet :=
    { solver := CScript.solver
      getPubKey := fun _ => some []
      nStakeSplitThreshold := 0
      signSignature := fun _ => some []
      signBlockWith := fun _ _ => none }

theorem stakeAt_oneTurn (nTxNewTime : Int) :
    (oneCoin scriptPubKey).stakeAt (oneTurn scriptPubKey) nTxNewTime = (true, ((firstBlock.nTime + 1 : Nat) : Int)) := by
  have passes : kernelPasses lowHashCrypto .main firstChain firstBlock ⟨(coinOf scriptPubKey).tx, 0, firstBlock⟩ 0x1e0ffff0
      (firstBlock.nTime + 1) = true := by
    have same : kernelPasses lowHashCrypto .main firstChain firstBlock ⟨(coinOf scriptPubKey).tx, 0, firstBlock⟩ 0x1e0ffff0
        (firstBlock.nTime + 1) = kernelPasses lowHashCrypto .main firstChain firstBlock ⟨firstCoin.tx, 0, firstBlock⟩ 0x1e0ffff0
        (firstBlock.nTime + 1) := rfl
    rw [same]
    decide
  have more : 0 < ((1540198700 + 45) % 2 ^ 32 : Int).toNat - firstBlock.nTime := by decide
  have input : CSchStake.ofOutput (oneCoin scriptPubKey).node firstChain (coinOf scriptPubKey) =
      some ⟨(coinOf scriptPubKey).tx, 0, firstBlock⟩ := rfl
  exact stake_search input rfl rfl (searchKernel_next more rfl passes)

theorem oneTurn_wellFormed : ∀ turn ∈ [oneTurn scriptPubKey], WellFormed turn := by
  intro turn member
  obtain rfl := List.mem_singleton.mp member
  have size : 1 ≤ 0x02000000 := by decide
  exact ⟨Nat.zero_lt_one, size⟩

def delegation : CScript := getScriptForStakeDelegation ⟨List.replicate 20 1, rfl⟩ ⟨List.replicate 20 2, rfl⟩

theorem stakeScript_delegation : (oneCoin delegation).wallet.stakeScript delegation = some delegation := by
  have solved : (oneCoin delegation).wallet.solver delegation = some (.TX_COLDSTAKE, [List.replicate 20 1, List.replicate 20 2]) :=
    CScript.solver_stakeDelegation ⟨List.replicate 20 1, rfl⟩ ⟨List.replicate 20 2, rfl⟩
  unfold StakeWallet.stakeScript
  rw [solved]
  rfl

theorem coinStakeOutputs_small (s : TemplateState) (stake : StakeTry) (txout : CTxOut)
    (small : CTransaction.getSerializeSize { hash := 0, vin := [], vout :=
      CTxOut.empty :: (shareCredit (stake.out.nValue + s.network.getBlockValue s.nHeight) [txout]) } < DEFAULT_BLOCK_MAX_SIZE / 5) :
    ∃ bare, s.coinStakeOutputs stake [txout] = some bare := by
  unfold TemplateState.coinStakeOutputs
  dsimp only
  rw [if_neg (by omega)]
  exact ⟨_, s.payees.fillBlockPayee_stake s.network s.nHeight _ rfl⟩

theorem turnOutputs_delegation : ∃ unsigned, (oneCoin delegation).turnOutputs (oneTurn delegation) = some (some unsigned) := by
  have created : (oneCoin delegation).wallet.createTxOuts delegation (100 + Network.main.getBlockValue 0) =
      some [{ nValue := 0, scriptPubKey := delegation }] := by
    unfold StakeWallet.createTxOuts
    rw [stakeScript_delegation]
    rfl
  have turn : (oneCoin delegation).turnOutputs (oneTurn delegation) =
      ((oneCoin delegation).wallet.createTxOuts delegation (100 + Network.main.getBlockValue 0)).map fun vout =>
        (((oneCoin delegation).template 0).coinStakeOutputs ((oneTurn delegation).stakeTry true) vout).map fun txNew =>
          { txNew with vin := [{ prevout := (oneTurn delegation).prevout }] } := rfl
  obtain ⟨bare, filled⟩ := coinStakeOutputs_small ((oneCoin delegation).template 0) ((oneTurn delegation).stakeTry true)
    { nValue := 0, scriptPubKey := delegation } (by decide)
  rw [turn, created, Option.map_some, filled]
  exact ⟨_, rfl⟩

theorem delegation_produced : ∃ txNew nTime, (oneCoin delegation).createCoinStake [oneTurn delegation] 0 = some (txNew, nTime) ∧
    (oneCoin delegation).Produced [oneTurn delegation] txNew nTime := by
  have usable : ¬ (oneCoin delegation).LastFails [oneTurn delegation] 0 := by
    rintro ⟨unused, -⟩
    have script := (unused _ List.mem_cons_self).2 (by rw [stakeAt_oneTurn])
    exact nomatch stakeScript_delegation.symm.trans script
  have produced := (coinstake_produced_iff (oneCoin delegation) rfl [oneTurn delegation] (oneTurn_wellFormed delegation) 0).mpr usable
  obtain ⟨unsigned, outputs⟩ := turnOutputs_delegation
  have made : (oneCoin delegation).search false [oneTurn delegation] 0 = some (unsigned, ((firstBlock.nTime + 1 : Nat) : Int)) := by
    unfold search
    rw [stakeAt_oneTurn, outputs]
    rfl
  obtain ⟨txNew, signed⟩ : ∃ txNew, ((oneCoin delegation).template 0).signInputs unsigned = some txNew := by
    unfold TemplateState.signInputs
    split
    · exact ⟨_, rfl⟩
    · exact ⟨_, rfl⟩
  have reported : (oneCoin delegation).createCoinStake [oneTurn delegation] 0 = some (txNew, ((firstBlock.nTime + 1 : Nat) : Int)) := by
    have height : (oneCoin delegation).pindexPrev.nHeight = 0 := rfl
    unfold createCoinStake
    rw [made, height, Option.bind_some, signed]
    rfl
  exact ⟨txNew, _, reported, produced txNew _ reported⟩

/-- A payment to a script hash, whose output `CreateTxOuts` does not make. -/
def scriptHashScript : CScript := 0xa9 :: 0x14 :: (List.replicate 20 1 ++ [0x87])

theorem scriptHash_unproduced : ¬ ∀ (r : StakeRequest), r.wallet.solver = CScript.solver → ∀ turns : List StakeTurn,
    (∀ turn ∈ turns, WellFormed turn) → ∀ nTxNewTime txNew nTime,
      r.createCoinStake turns nTxNewTime = some (txNew, nTime) → r.Produced turns txNew nTime := by
  intro produced
  have solved : CScript.solver scriptHashScript = some (.TX_SCRIPTHASH, [List.replicate 20 1]) := by
    have hash : CScript.isPayToScriptHash scriptHashScript = true := by decide
    unfold CScript.solver
    rw [if_pos hash]
    rfl
  have script : (oneCoin scriptHashScript).wallet.stakeScript scriptHashScript = none := by
    have same : (oneCoin scriptHashScript).wallet.solver scriptHashScript = some (.TX_SCRIPTHASH, [List.replicate 20 1]) := solved
    unfold StakeWallet.stakeScript
    rw [same]
  have unused : ∀ p ∈ (oneCoin scriptHashScript).tried [oneTurn scriptHashScript] 0, p.1.ends firstBlock = false ∧
      (p.2 = true → (oneCoin scriptHashScript).wallet.stakeScript p.1.txOut.scriptPubKey = none) := by
    intro p member
    obtain rfl := List.mem_singleton.mp member
    exact ⟨rfl, fun _ => script⟩
  obtain ⟨nTime, made⟩ := search_unused false unused (by
    show ((oneCoin scriptHashScript).stakeAt (oneTurn scriptHashScript) 0).1 = true
    rw [stakeAt_oneTurn])
  have reported : (oneCoin scriptHashScript).createCoinStake [oneTurn scriptHashScript] 0 =
      some ({ hash := 0, vin := [], vout := [.empty] }, nTime) := by
    unfold createCoinStake
    rw [made]
    rfl
  have coinStake := (produced _ rfl _ (oneTurn_wellFormed scriptHashScript) 0 _ _ reported).isCoinStake
  exact Bool.false_ne_true coinStake

end StakeRequest

end SchillingCoin
