import Mathlib.Order.Bounds.Basic
import SchillingCoin.Chain.BlockTime
import SchillingCoin.Stake.Kernel

/-!
The search for a kernel, after `Stake` in `kernel.cpp` and the loop of `CreateCoinStake` that calls it, and what the validators make
of a kernel that it finds.
-/

namespace SchillingCoin

structure COutput where
  tx : CTransaction
  i : Nat

namespace CSchStake

def getIndexFrom (node : StakeNode) (chainActive : CChain) (hash : uint256) : Option CBlockIndex := do
  let (_, hashBlock) ← node.getTransaction chainActive hash
  let pindex ← node.mapBlockIndex.lookup hashBlock
  if chainActive.contains pindex then some pindex else none

/-- The input that `SetPrevout` makes, with the block that it looks up at its first use. -/
def ofOutput (node : StakeNode) (chainActive : CChain) (out : COutput) : Option CSchStake :=
  (getIndexFrom node chainActive out.tx.hash).map fun pindexFrom => { txFrom := out.tx, nPosition := out.i, pindexFrom }

end CSchStake

def kernelPasses (crypto : Crypto) (network : Network) (chainActive : CChain) (pindexPrev : CBlockIndex) (stakeInput : CSchStake)
    (nBits : BitVec 32) (nTime : Nat) : Bool :=
  (CStakeKernel.make network chainActive pindexPrev stakeInput nBits nTime).any (CStakeKernel.checkKernelHash crypto)

/-- The passes that are left of the loop over times; it ends where a new block came in. -/
def searchKernel (passes newBlock : Nat → Bool) : (left : Nat) → (nTryTime : Nat) → Option Nat
  | 0, _ => none
  | left + 1, nTryTime =>
    if newBlock nTryTime then none
    else if passes (nTryTime + 1) then some (nTryTime + 1)
    else searchKernel passes newBlock left (nTryTime + 1)

structure StakeCall where
  out : COutput
  getAdjustedTime : Int
  chainActiveHeight : Nat → Nat

section Staker

variable (crypto : Crypto) (node : StakeNode) (chainActive : CChain) (pindexPrev : CBlockIndex) (nBits : BitVec 32)

/-- The result and `nTimeTx` after the call. The bound of the search is an `unsigned int`. -/
def stake (call : StakeCall) (nTimeTx : Int) : Bool × Int :=
  match CSchStake.ofOutput node chainActive call.out with
  | none => (false, nTimeTx)
  | some stakeInput =>
    if !stakeInput.contextCheck node.network (pindexPrev.nHeight + 1) (nTimeTx % 2 ^ 32).toNat then (false, nTimeTx)
    else if node.network.consensus.isTimeProtocolV2 (pindexPrev.nHeight + 1) then
      let nTimeTx := if node.network = .regtest then call.getAdjustedTime else getTimeSlot node.network call.getAdjustedTime
      if nTimeTx ≤ pindexPrev.nTime ∧ node.network ≠ .regtest then (false, nTimeTx)
      else (kernelPasses crypto node.network chainActive pindexPrev stakeInput nBits (nTimeTx % 2 ^ 32).toNat, nTimeTx)
    else
      let maxTime := ((call.getAdjustedTime + 45) % 2 ^ 32).toNat
      match searchKernel (kernelPasses crypto node.network chainActive pindexPrev stakeInput nBits)
          (fun nTryTime => call.chainActiveHeight nTryTime != pindexPrev.nHeight) (maxTime - pindexPrev.nTime) pindexPrev.nTime with
      | none => (false, pindexPrev.nTime)
      | some nTryTime => (true, nTryTime)

/-- What `CreateCoinStake` hands to the next call: zero at first, then what the last call left, also where the outputs of a kernel
could not be made. -/
def timeAfter (calls : List StakeCall) : Int :=
  calls.foldl (fun nTimeTx call => (stake crypto node chainActive pindexPrev nBits call nTimeTx).2) 0

end Staker

theorem searchKernel_some (h : searchKernel passes newBlock left nTryTime = some found) :
    nTryTime < found ∧ found ≤ nTryTime + left ∧ passes found = true ∧
      ∀ nTime, nTryTime < nTime → nTime < found → passes nTime = false := by
  induction left generalizing nTryTime with
  | zero => cases h
  | succ left ih =>
    simp only [searchKernel] at h
    split at h
    · cases h
    split at h
    · rename_i passed
      obtain rfl := Option.some.inj h
      refine ⟨Nat.lt_succ_self _, by omega, passed, ?_⟩
      intro nTime above below
      omega
    · rename_i failed
      obtain ⟨above, within, passed, first⟩ := ih h
      refine ⟨by omega, by omega, passed, ?_⟩
      intro nTime later before
      by_cases next : nTime = nTryTime + 1
      · subst next
        simpa using failed
      · exact first nTime (by omega) before

theorem lowBytes_mod (n value : Nat) : lowBytes n (value % 256 ^ n) = lowBytes n value := by
  induction n generalizing value with
  | zero => rfl
  | succ n ih =>
    have low : UInt8.ofNat (value % 256 ^ (n + 1)) = UInt8.ofNat value := by
      apply UInt8.toNat_inj.mp
      simp only [UInt8.toNat_ofNat']
      exact Nat.mod_mod_of_dvd _ (Dvd.intro_left (256 ^ n) rfl)
    have high : value % 256 ^ (n + 1) / 256 = value / 256 % 256 ^ n := by
      rw [Nat.pow_succ, Nat.mul_comm, Nat.mod_mul_right_div_self]
    simp only [lowBytes, low, high, ih]

section Accepted

variable {crypto : Crypto} {node : StakeNode} {c : CChain} {pindexPrev : CBlockIndex} {nBits : BitVec 32}

theorem checkKernelHash_mod (k : CStakeKernel) (nTime : Nat) :
    { k with nTime := nTime % 2 ^ 32 }.checkKernelHash crypto = { k with nTime }.checkKernelHash crypto := by
  have bytes : lowBytes 4 (nTime % 2 ^ 32) = lowBytes 4 nTime := lowBytes_mod 4 nTime
  have hash : { k with nTime := nTime % 2 ^ 32 }.getHash crypto = { k with nTime }.getHash crypto := by
    simp only [CStakeKernel.getHash, bytes]
  unfold CStakeKernel.checkKernelHash
  rw [hash]

theorem kernelPasses_mod (network : Network) (stakeInput : CSchStake) (nTime : Nat) :
    kernelPasses crypto network c pindexPrev stakeInput nBits (nTime % 2 ^ 32) =
      kernelPasses crypto network c pindexPrev stakeInput nBits nTime := by
  unfold kernelPasses CStakeKernel.make
  cases stakeInput.txFrom.vout[stakeInput.nPosition]? with
  | none => rfl
  | some out => exact checkKernelHash_mod ⟨_, _, _, nTime, _, _⟩ nTime

theorem timeAfter_zero (height : pindexPrev.nHeight + 2 = node.network.consensus.height_RHF)
    (modifier : node.network.consensus.isStakeModifierV2 (pindexPrev.nHeight + 1) = false)
    (young : ∀ call ∈ earlier, ∀ stakeInput, CSchStake.ofOutput node c call.out = some stakeInput → 0 < (stakeInput.pindexFrom.nTime + node.network.consensus.nStakeMinAge) % 2 ^ 32) :
    timeAfter crypto node c pindexPrev nBits earlier = 0 := by
  unfold timeAfter
  induction earlier with
  | nil => rfl
  | cons call earlier ih =>
    have unchanged : (stake crypto node c pindexPrev nBits call 0).2 = 0 := by
      unfold stake
      cases known : CSchStake.ofOutput node c call.out with
      | none => rfl
      | some stakeInput =>
        have old := young call List.mem_cons_self stakeInput known
        have refused : stakeInput.contextCheck node.network (pindexPrev.nHeight + 1) ((0 : Int) % 2 ^ 32).toNat = false := by
          simp only [CSchStake.contextCheck, Consensus.Params.hasStakeMinAgeOrDepth, modifier]
          simp
          omega
        simp only [refused, Bool.not_false, if_true]
    rw [List.foldl_cons, unchanged]
    exact ih fun later member => young later (List.mem_cons_of_mem _ member)

variable {stakeInput : CSchStake} {nTime : Nat} {call : StakeCall} {nTimeTx : Int}

theorem contextCheck_later (network : Network) (later : nTime ≤ nTime')
    (passed : stakeInput.contextCheck network nHeight nTime = true) :
    stakeInput.contextCheck network nHeight nTime' = true := by
  simp only [CSchStake.contextCheck, Consensus.Params.hasStakeMinAgeOrDepth] at passed ⊢
  split at passed
  · rename_i modifier
    rw [if_pos modifier]
    simp at passed ⊢
    omega
  · rename_i modifier
    rw [if_neg modifier]
    exact passed

theorem stake_search (input : CSchStake.ofOutput node c call.out = some stakeInput)
    (passed : stakeInput.contextCheck node.network (pindexPrev.nHeight + 1) (nTimeTx % 2 ^ 32).toNat = true)
    (protocol : node.network.consensus.isTimeProtocolV2 (pindexPrev.nHeight + 1) = false)
    (searched : searchKernel (kernelPasses crypto node.network c pindexPrev stakeInput nBits) (fun nTryTime => call.chainActiveHeight nTryTime != pindexPrev.nHeight) (((call.getAdjustedTime + 45) % 2 ^ 32).toNat - pindexPrev.nTime) pindexPrev.nTime = some nTryTime) :
    stake crypto node c pindexPrev nBits call nTimeTx = (true, (nTryTime : Int)) := by
  simp only [stake, input, passed, protocol, searched, Bool.not_true, Bool.false_eq_true, if_false]

theorem stake_found (h : stake crypto node c pindexPrev nBits call nTimeTx = (true, t)) :
    ∃ stakeInput, CSchStake.ofOutput node c call.out = some stakeInput ∧
      stakeInput.contextCheck node.network (pindexPrev.nHeight + 1) (nTimeTx % 2 ^ 32).toNat = true ∧
      if node.network.consensus.isTimeProtocolV2 (pindexPrev.nHeight + 1) then
        t = (if node.network = .regtest then call.getAdjustedTime else getTimeSlot node.network call.getAdjustedTime) ∧
        ((pindexPrev.nTime : Int) < t ∨ node.network = .regtest) ∧
        kernelPasses crypto node.network c pindexPrev stakeInput nBits (t % 2 ^ 32).toNat = true
      else ∃ nTryTime : Nat, t = nTryTime ∧
        searchKernel (kernelPasses crypto node.network c pindexPrev stakeInput nBits)
          (fun nTryTime => call.chainActiveHeight nTryTime != pindexPrev.nHeight)
          (((call.getAdjustedTime + 45) % 2 ^ 32).toNat - pindexPrev.nTime) pindexPrev.nTime = some nTryTime := by
  unfold stake at h
  cases known : CSchStake.ofOutput node c call.out with
  | none =>
    rw [known] at h
    cases h
  | some stakeInput =>
    simp only [known] at h
    split at h
    · cases h
    rename_i passed
    refine ⟨stakeInput, rfl, by simpa using passed, ?_⟩
    split at h
    · rename_i protocol
      rw [if_pos protocol]
      generalize (if node.network = .regtest then call.getAdjustedTime else getTimeSlot node.network call.getAdjustedTime) = time
        at h ⊢
      split at h
      · cases h
      · rename_i later
        obtain ⟨passes, rfl⟩ := Prod.mk.inj h
        refine ⟨rfl, ?_, passes⟩
        by_contra neither
        exact later ⟨by omega, fun regtest => neither (Or.inr regtest)⟩
    · rename_i protocol
      rw [if_neg protocol]
      split at h
      · cases h
      · rename_i nTryTime searched
        obtain ⟨_, rfl⟩ := Prod.mk.inj h
        exact ⟨nTryTime, rfl, searched⟩

theorem getTimeSlot_spec (positive : 0 < getTimeSlot .main getAdjustedTime) :
    getTimeSlot .main getAdjustedTime ≤ getAdjustedTime ∧ (getTimeSlot .main getAdjustedTime).tmod 15 = 0 := by
  have slot : getTimeSlot .main getAdjustedTime = getAdjustedTime.tdiv 15 * 15 := rfl
  rw [slot] at positive ⊢
  by_cases nonneg : 0 ≤ getAdjustedTime
  · rw [Int.tdiv_eq_ediv_of_nonneg nonneg] at positive ⊢
    rw [Int.tmod_eq_emod_of_nonneg (by omega)]
    omega
  · -- before the epoch a slot is rounded towards it
    have negated : getAdjustedTime.tdiv 15 = -((-getAdjustedTime).tdiv 15) := by rw [Int.neg_tdiv, Int.neg_neg]
    rw [negated, Int.tdiv_eq_ediv_of_nonneg (by omega)] at positive
    omega

theorem checkBlockTime_found (mainnet : node.network = .main) (tip : c.vChain.getLast? = some pindexPrev)
    (accepted : c.TimesAccepted .main) (clock : 0 ≤ call.getAdjustedTime + 45)
    (found : stake crypto node c pindexPrev nBits call nTimeTx = (true, (nTime : Int))) :
    checkBlockTime .main call.getAdjustedTime c nTime pindexPrev = .ok () := by
  have here : c.vChain[pindexPrev.nHeight]? = some pindexPrev := by
    rw [List.getLast?_eq_getElem?] at tip
    rwa [c.heights _ _ tip]
  obtain ⟨stakeInput, _, _, found⟩ := stake_found found
  rw [mainnet] at found
  rw [checkBlockTime_ok (by decide)]
  unfold CBlockIndex.maxFutureBlockTime CBlockIndex.minPastBlockTime
  split at found
  · rename_i protocol
    obtain ⟨slot, later, _⟩ := found
    have later := later.resolve_right (by decide)
    rw [if_neg (by decide)] at slot
    have slotLength : (Network.main.consensus.nTimeSlotLength : Int) = 15 := rfl
    have positive : 0 < getTimeSlot .main call.getAdjustedTime := by omega
    obtain ⟨notLater, mask⟩ := getTimeSlot_spec positive
    rw [← slot] at notLater mask
    have drift : Network.main.consensus.futureBlockTimeDrift (pindexPrev.nHeight + 1) = 14 := by
      simp [Consensus.Params.futureBlockTimeDrift, protocol, slotLength]
    have driftBefore : 14 ≤ Network.main.consensus.futureBlockTimeDrift pindexPrev.nHeight := by
      unfold Consensus.Params.futureBlockTimeDrift
      split_ifs <;> decide
    refine ⟨?_, ?_, ?_⟩
    · rw [drift]
      omega
    · rw [protocol, Bool.not_true, if_neg (by decide), drift]
      split
      · omega
      · exact later
    · simp [Consensus.Params.isValidBlockTimeStamp, slotLength, mask]
  · rename_i protocol
    rw [Bool.not_eq_true] at protocol
    obtain ⟨nTryTime, same, searched⟩ := found
    obtain rfl := Int.ofNat_inj.mp same
    obtain ⟨above, within, _, _⟩ := searchKernel_some searched
    have drift : 45 ≤ Network.main.consensus.futureBlockTimeDrift (pindexPrev.nHeight + 1) := by
      simp only [Consensus.Params.futureBlockTimeDrift, protocol]
      split_ifs <;> first | decide | contradiction
    refine ⟨?_, ?_, ?_⟩
    · omega
    · rw [protocol, Bool.not_false, if_pos rfl]
      have v1 : Network.main.consensus.isTimeProtocolV2 pindexPrev.nHeight = false := by
        simp only [Consensus.Params.isTimeProtocolV2, decide_eq_false_iff_not] at protocol ⊢
        omega
      have median := CChain.getMedianTimePast_le (by decide) accepted here v1
      omega
    · simp [Consensus.Params.isValidBlockTimeStamp, protocol]

theorem contextCheck_found (mainnet : node.network = .main)
    (young : ∀ call ∈ earlier, ∀ stakeInput, CSchStake.ofOutput node c call.out = some stakeInput → stakeInput.pindexFrom.nTime + Network.main.consensus.nStakeMinAge < 2 ^ 32)
    (passed : stakeInput.contextCheck .main (pindexPrev.nHeight + 1) (timeAfter crypto node c pindexPrev nBits earlier % 2 ^ 32).toNat = true) :
    stakeInput.contextCheck .main (pindexPrev.nHeight + 1) nTime = true := by
  cases modifier : Network.main.consensus.isStakeModifierV2 (pindexPrev.nHeight + 1) with
  | true => simpa [CSchStake.contextCheck, Consensus.Params.hasStakeMinAgeOrDepth, modifier] using passed
  | false =>
    have fork : Network.main.consensus.height_RHF = 1040000 := rfl
    by_cases last : pindexPrev.nHeight + 2 = 1040000
    · have zero : timeAfter crypto node c pindexPrev nBits earlier = 0 := by
        apply timeAfter_zero
        · rw [mainnet, last, fork]
        · rw [mainnet, modifier]
        · intro call member stakeInput known
          have fits := young call member stakeInput known
          rw [mainnet, Nat.mod_eq_of_lt fits]
          exact Nat.add_pos_right _ (by decide)
      rw [zero] at passed
      exact contextCheck_later .main (Nat.zero_le _) passed
    · have unchecked : ¬pindexPrev.nHeight + 1 + 1 ≥ Network.main.consensus.height_RHF := by
        have start : Network.main.consensus.height_start_StakeModifierV2 = 1040000 := rfl
        have below := of_decide_eq_false modifier
        omega
      simp [CSchStake.contextCheck, unchecked]

theorem loadStakeInput_found
    (known : ∀ tx hashBlock, node.getTransaction c call.out.tx.hash = some (tx, hashBlock) → tx = call.out.tx)
    (input : CSchStake.ofOutput node c call.out = some stakeInput) (parent : block.hashPrevBlock = pindexPrev.hash)
    (coinstake : block.vtx[1]? = some tx) (staking : tx.isCoinStake = true) (first : tx.vin.head? = some txin)
    (spends : txin.prevout = ⟨call.out.tx.hash, call.out.i⟩) :
    loadStakeInput node c block pindexPrev = .ok (tx, txin, stakeInput) := by
  have stake : CSchStake.initFromTxIn node c txin = some stakeInput := by
    simp only [CSchStake.ofOutput, CSchStake.getIndexFrom, Option.map_eq_some_iff, Option.bind_eq_bind, Option.bind_eq_some_iff] at input
    obtain ⟨pindexFrom, ⟨⟨txPrev, hashBlock⟩, found, pindex, mapped, inChain⟩, rfl⟩ := input
    obtain rfl := known txPrev hashBlock found
    split at inChain
    · rename_i contained
      obtain rfl := Option.some.inj inChain
      simp [CSchStake.initFromTxIn, spends, found, mapped, contained]
    · cases inChain
  unfold loadStakeInput
  rw [parent]
  simp only [ne_eq, not_true_eq_false, decide_false, Checked.refuse_false, Checked.ok_bind]
  match vtx : block.vtx with
  | [] => simp [vtx] at coinstake
  | [_] => simp [vtx] at coinstake
  | _ :: second :: _ =>
    obtain rfl : second = tx := by simpa [vtx] using coinstake
    match vin : second.vin with
    | [] => simp [vin] at first
    | head :: _ =>
      obtain rfl : head = txin := by simpa [vin] using first
      simp [staking, vin, stake]

theorem checkProofOfStake_of_kernel (loaded : loadStakeInput node c block pindexPrev = .ok (tx, txin, stakeInput))
    (position : txin.prevout.n = stakeInput.nPosition)
    (passed : stakeInput.contextCheck node.network (pindexPrev.nHeight + 1) block.nTime = true)
    (kernel : kernelPasses crypto node.network c pindexPrev stakeInput block.nBits block.nTime = true) :
    checkProofOfStake crypto node c block pindexPrev = .ok () ∨
      ∃ e, checkProofOfStake crypto node c block pindexPrev = .error (.signature e) := by
  unfold kernelPasses at kernel
  rw [Option.any_eq_true] at kernel
  obtain ⟨k, made, hash⟩ := kernel
  obtain ⟨out, there, _⟩ := Option.map_eq_some_iff.mp made
  have nonempty : stakeInput.txFrom.vout.isEmpty = false := by
    cases vout : stakeInput.txFrom.vout with
    | nil => simp [vout] at there
    | cons out vout => rfl
  unfold checkProofOfStake
  simp only [loaded, Checked.ok_bind, passed, nonempty, position, there, made, hash, Bool.and_false, Bool.not_true, Checked.refuse_false]
  cases verifyScript crypto txin.scriptSig out.scriptPubKey STANDARD_SCRIPT_VERIFY_FLAGS (transactionSignatureChecker crypto tx 0) with
  | error e => exact Or.inr ⟨e, rfl⟩
  | ok _ => exact Or.inl rfl

end Accepted

/-- A kernel that the staker finds is one that the validators accept, where neither the bound of the search nor the age of a coin
tried before wraps around 32 bits. The transaction that the node finds under a hash is the one the wallet holds. -/
theorem found_kernel_accepted (crypto : Crypto) (node : StakeNode) (c : CChain) (pindexPrev : CBlockIndex) (nBits : BitVec 32)
    (earlier : List StakeCall) (call : StakeCall) (t : Int) (mainnet : node.network = .main)
    (tip : c.vChain.getLast? = some pindexPrev) (accepted : c.TimesAccepted .main)
    (known : ∀ tx hashBlock, node.getTransaction c call.out.tx.hash = some (tx, hashBlock) → tx = call.out.tx)
    (clock : 0 ≤ call.getAdjustedTime + 45)
    (young : ∀ call ∈ earlier, ∀ stakeInput, CSchStake.ofOutput node c call.out = some stakeInput →
      stakeInput.pindexFrom.nTime + Network.main.consensus.nStakeMinAge < 2 ^ 32)
    (found : stake crypto node c pindexPrev nBits call (timeAfter crypto node c pindexPrev nBits earlier) = (true, t)) :
    (∀ block : CBlock, block.hashPrevBlock = pindexPrev.hash → (block.nTime : Int) = t → block.nBits = nBits →
      checkBlockTime .main call.getAdjustedTime c block.nTime pindexPrev = .ok () ∧
      ∀ tx txin, block.vtx[1]? = some tx → tx.isCoinStake = true → tx.vin.head? = some txin →
        txin.prevout = ⟨call.out.tx.hash, call.out.i⟩ →
        (∃ stakeInput, loadStakeInput node c block pindexPrev = .ok (tx, txin, stakeInput) ∧
          stakeInput.contextCheck .main (pindexPrev.nHeight + 1) block.nTime = true ∧
          kernelPasses crypto .main c pindexPrev stakeInput block.nBits block.nTime = true) ∧
        (checkProofOfStake crypto node c block pindexPrev = .ok () ∨
          ∃ e, checkProofOfStake crypto node c block pindexPrev = .error (.signature e))) ∧
    (Network.main.consensus.isTimeProtocolV2 (pindexPrev.nHeight + 1) = false →
      ∃ stakeInput, CSchStake.ofOutput node c call.out = some stakeInput ∧ ∃ nTime : Nat, t = nTime ∧
        IsLeast {n : Nat | pindexPrev.nTime < n ∧ (n : Int) ≤ call.getAdjustedTime + 45 ∧
          kernelPasses crypto .main c pindexPrev stakeInput nBits n = true} nTime) := by
  obtain ⟨stakeInput, input, passed, search⟩ := stake_found found
  rw [mainnet] at passed search
  constructor
  · intro block parent time bits
    subst time bits
    refine ⟨checkBlockTime_found mainnet tip accepted clock found, ?_⟩
    intro tx txin coinstake staking first spends
    have loaded := loadStakeInput_found known input parent coinstake staking first spends
    have inTime : stakeInput.contextCheck .main (pindexPrev.nHeight + 1) block.nTime = true :=
      contextCheck_found mainnet young passed
    have kernel : kernelPasses crypto .main c pindexPrev stakeInput block.nBits block.nTime = true := by
      split at search
      · obtain ⟨_, _, passes⟩ := search
        have low : ((block.nTime : Int) % 2 ^ 32).toNat = block.nTime % 2 ^ 32 := by omega
        rwa [low, kernelPasses_mod] at passes
      · obtain ⟨nTryTime, same, searched⟩ := search
        obtain ⟨_, _, passes, _⟩ := searchKernel_some searched
        rwa [Int.ofNat_inj.mp same]
    refine ⟨⟨stakeInput, loaded, inTime, kernel⟩, ?_⟩
    have position : txin.prevout.n = stakeInput.nPosition := by
      obtain ⟨_, _, rfl⟩ := Option.map_eq_some_iff.mp input
      rw [spends]
    rw [← mainnet] at inTime kernel
    exact checkProofOfStake_of_kernel loaded position inTime kernel
  · intro protocol
    rw [protocol, if_neg (by decide)] at search
    obtain ⟨nTryTime, same, searched⟩ := search
    obtain ⟨above, within, passes, first⟩ := searchKernel_some searched
    refine ⟨stakeInput, input, nTryTime, same, ⟨above, by omega, passes⟩, ?_⟩
    rintro n ⟨later, _, passesToo⟩
    by_contra before
    rw [first n later (Nat.lt_of_not_le before)] at passesToo
    cases passesToo

def lowHashCrypto : Crypto where
  ripemd160 vch := vch
  sha1 vch := vch
  sha256 _ := []
  checkLowS _ := true
  signatureHash _ _ _ _ := 0
  verify _ _ _ := true

def firstBlock : CBlockIndex := { hash := 0x10, nHeight := 0, nTime := 1540198678 }

def firstChain : CChain where
  vChain := [firstBlock]
  heights := by
    intro nHeight pindex found
    obtain ⟨rfl, rfl⟩ : nHeight = 0 ∧ pindex = firstBlock := by
      cases nHeight with
      | zero => exact ⟨rfl, (Option.some.inj found).symm⟩
      | succ nHeight => cases found
    rfl

def firstCoin : COutput := { tx := { hash := 0x51, vin := [], vout := [⟨100, [], -10⟩] }, i := 0 }

def firstNode : StakeNode :=
  { network := .main
    mapBlockIndex := (∅ : StdMap uint256 CBlockIndex).insert 0x10 firstBlock
    readTxIndex := fun hash => if hash = 0x51 then some (firstCoin.tx, 0x10) else none }

theorem firstChain_accepted : firstChain.TimesAccepted .main := by
  intro nHeight pindexPrev pindex _ next
  cases next

theorem searchKernel_next (more : 0 < left) (same : newBlock nTryTime = false) (passed : passes (nTryTime + 1) = true) :
    searchKernel passes newBlock left nTryTime = some (nTryTime + 1) := by
  cases left with
  | zero => cases more
  | succ left => simp [searchKernel, same, passed]

theorem stake_firstChain (later : 1540198678 < (getAdjustedTime + 45) % 2 ^ 32) :
    stake lowHashCrypto firstNode firstChain firstBlock 0x1e0ffff0 ⟨firstCoin, getAdjustedTime, fun _ => 0⟩ nTimeTx =
      (true, ((firstBlock.nTime + 1 : Nat) : Int)) := by
  have time : firstBlock.nTime = 1540198678 := rfl
  have passes : kernelPasses lowHashCrypto .main firstChain firstBlock ⟨firstCoin.tx, 0, firstBlock⟩ 0x1e0ffff0
      (firstBlock.nTime + 1) = true := by
    decide
  have input : CSchStake.ofOutput firstNode firstChain firstCoin = some ⟨firstCoin.tx, 0, firstBlock⟩ := rfl
  exact stake_search input rfl rfl (searchKernel_next (by simp only; omega) rfl passes)

def secondBlock : CBlock :=
  { hash := 0x11
    hashPrevBlock := 0x10
    nTime := 1540198679
    nBits := 0x1e0ffff0
    vtx := [{ hash := 0x60, vin := [{ prevout := .null }], vout := [⟨0, [], -10⟩] },
      { hash := 0x61, vin := [{ prevout := ⟨0x51, 0⟩ }], vout := [⟨0, [], -10⟩, ⟨100, [], -10⟩] }] }

theorem second_block_accepted :
    checkBlockTime .main 1540198700 firstChain secondBlock.nTime firstBlock = .ok () ∧
      (checkProofOfStake lowHashCrypto firstNode firstChain secondBlock firstBlock = .ok () ∨
        ∃ e, checkProofOfStake lowHashCrypto firstNode firstChain secondBlock firstBlock = .error (.signature e)) := by
  have accepted := (found_kernel_accepted lowHashCrypto firstNode firstChain firstBlock 0x1e0ffff0
    [⟨firstCoin, 1540198680, fun _ => 0⟩] ⟨firstCoin, 1540198700, fun _ => 0⟩ 1540198679 rfl rfl firstChain_accepted
    (by
      intro tx hashBlock found
      exact (Prod.mk.inj (Option.some.inj found)).1.symm)
    (by decide)
    (by
      intro call member stakeInput input
      obtain rfl := List.mem_singleton.mp member
      obtain rfl := Option.some.inj input
      decide)
    (stake_firstChain (by decide))).1 secondBlock rfl rfl rfl
  exact ⟨accepted.1, (accepted.2 _ _ rfl rfl rfl rfl).2⟩

def forkTime (nHeight : Nat) : Nat := if nHeight = 5 then 2 ^ 32 - 3600 else nHeight

def forkBlock (nHeight : Nat) : CBlockIndex := { hash := BitVec.ofNat 256 (nHeight + 1), nHeight, nTime := forkTime nHeight }

variable {n nHeight : Nat}

theorem forkBlocks_at (found : ((List.range n).map forkBlock)[nHeight]? = some pindex) :
    nHeight < n ∧ pindex = forkBlock nHeight := by
  obtain ⟨inside, rfl⟩ := List.getElem?_eq_some_iff.mp found
  refine ⟨by simpa using inside, ?_⟩
  simp

def forkChain (n : Nat) : CChain where
  vChain := (List.range n).map forkBlock
  heights := by
    intro nHeight pindex found
    rw [(forkBlocks_at found).2]
    rfl

theorem timesFrom_forkChain (inside : nHeight < n) :
    (forkChain n).timesFrom (forkBlock nHeight) = ((List.range (nHeight + 1)).map forkTime).reverse := by
  have times : CBlockIndex.nTime ∘ forkBlock = forkTime := rfl
  simp only [CChain.timesFrom, forkChain, forkBlock, ← List.map_take, List.take_range, List.map_map]
  rw [Nat.min_eq_left (by omega)]
  rfl

theorem forkChain_tip (n : Nat) : (forkChain (n + 1)).vChain.getLast? = some (forkBlock n) := by
  simp [forkChain, List.range_succ]

theorem forkMedian_le (inside : nHeight < n) :
    (forkChain n).getMedianTimePast (forkBlock nHeight) ≤ nHeight := by
  unfold CChain.getMedianTimePast
  rw [timesFrom_forkChain inside]
  induction nHeight with
  | zero => decide
  | succ nHeight ih =>
    have before := ih (Nat.lt_of_succ_lt inside)
    by_cases late : nHeight + 1 = 5
    · obtain rfl : nHeight = 4 := by omega
      decide
    · rw [List.range_succ, List.map_append, List.reverse_append]
      have time : forkTime (nHeight + 1) = nHeight + 1 := if_neg late
      simp only [List.map_cons, List.map_nil, List.reverse_cons, List.reverse_nil, List.nil_append, List.cons_append, time]
      exact Median.median_window_cons (n := 5) (by simp) (Nat.le_succ_of_le before)

theorem forkChain_accepted (beforeFork : n ≤ 1040000) : (forkChain n).TimesAccepted .main := by
  intro nHeight pindexPrev pindex prev here
  obtain ⟨inside, rfl⟩ := forkBlocks_at prev
  obtain ⟨insideNext, rfl⟩ := forkBlocks_at here
  have protocol : Network.main.consensus.isTimeProtocolV2 ((forkBlock nHeight).nHeight + 1) = false := by
    have start : Network.main.consensus.height_start_TimeProtoV2 = 1040000 := rfl
    simp only [Consensus.Params.isTimeProtocolV2, start, forkBlock, decide_eq_false_iff_not]
    omega
  refine ⟨forkTime (nHeight + 1), (checkBlockTime_ok (by decide)).mpr ⟨?_, ?_, ?_⟩⟩
  · have drift : 0 ≤ Network.main.consensus.futureBlockTimeDrift ((forkBlock nHeight).nHeight + 1) := by
      unfold Consensus.Params.futureBlockTimeDrift
      split_ifs <;> decide
    have time : (forkBlock (nHeight + 1)).nTime = forkTime (nHeight + 1) := rfl
    rw [time, CBlockIndex.maxFutureBlockTime]
    omega
  · rw [CBlockIndex.minPastBlockTime, protocol, Bool.not_false, if_pos rfl]
    have median := forkMedian_le inside
    have time : nHeight + 1 ≤ forkTime (nHeight + 1) := by
      unfold forkTime
      split <;> omega
    have later : (forkBlock (nHeight + 1)).nTime = forkTime (nHeight + 1) := rfl
    omega
  · simp [Consensus.Params.isValidBlockTimeStamp, protocol]

def wrappedCoin : COutput := { tx := { hash := 0x51, vin := [], vout := [⟨100, [], -10⟩] }, i := 0 }
def freshCoin : COutput := { tx := { hash := 0x52, vin := [], vout := [⟨100, [], -10⟩] }, i := 0 }

def forkNode : StakeNode :=
  { network := .main
    mapBlockIndex := ((∅ : StdMap uint256 CBlockIndex).insert 6 (forkBlock 5)).insert 1036401 (forkBlock 1036400)
    readTxIndex := fun hash =>
      if hash = 0x51 then some (wrappedCoin.tx, 6) else if hash = 0x52 then some (freshCoin.tx, 1036401) else none }

def forkCrypto : Crypto :=
  { lowHashCrypto with
    sha256 := fun data =>
      if data.isEmpty || data.drop 48 == lowBytes 4 1040028 || (data.drop 16).take 1 == [0x52] then [] else List.replicate 32 0xff }

theorem ofOutput_forkNode (inside : nHeight < n)
    (found : forkNode.getTransaction (forkChain n) out.tx.hash = some (out.tx, hashBlock))
    (mapped : forkNode.mapBlockIndex.lookup hashBlock = some (forkBlock nHeight)) :
    CSchStake.ofOutput forkNode (forkChain n) out = some ⟨out.tx, out.i, forkBlock nHeight⟩ := by
  have contained : (forkChain n).contains (forkBlock nHeight) = true := by
    simp [CChain.contains, forkChain, forkBlock, inside]
  simp [CSchStake.ofOutput, CSchStake.getIndexFrom, found, mapped, contained]

theorem stakeModifierOf_v1 (protocol : Network.main.consensus.isStakeModifierV2 (pindexPrev.nHeight + 1) = false) :
    ∃ modifier, CStakeKernel.stakeModifierOf .main c pindexPrev pindexFrom = lowBytes 8 modifier := by
  unfold CStakeKernel.stakeModifierOf
  rw [protocol]
  exact ⟨_, rfl⟩

theorem wrappedCoin_hash (modifier nTime : Nat) :
    forkCrypto.hash256 (lowBytes 8 modifier ++ lowBytes 4 (forkTime 5) ++ (lowBytes 4 0 ++ lowBytes 32 0x51) ++ lowBytes 4 nTime) =
      if lowBytes 4 nTime == lowBytes 4 1040028 then [] else List.replicate 32 0xff := by
  have first : forkCrypto.sha256 (lowBytes 8 modifier ++ lowBytes 4 (forkTime 5) ++ (lowBytes 4 0 ++ lowBytes 32 0x51) ++
      lowBytes 4 nTime) =
        if (false || lowBytes 4 nTime == lowBytes 4 1040028 || false) then [] else List.replicate 32 0xff := rfl
  rw [Crypto.hash256, first, Bool.or_false, Bool.false_or]
  split
  · rfl
  · rfl

theorem target_pos : (0 : uint256) < setCompact 0x1e0ffff0 * (BitVec.ofNat 256 ((100 : Int) % 2 ^ 64).toNat / 100) := by
  decide

theorem wrappedCoin_kernel (c : CChain) (nTime : Nat) :
    kernelPasses forkCrypto .main c (forkBlock 1039998) ⟨wrappedCoin.tx, 0, forkBlock 5⟩ 0x1e0ffff0 nTime =
      (lowBytes 4 nTime == lowBytes 4 1040028) := by
  obtain ⟨modifier, read⟩ : ∃ modifier, CStakeKernel.stakeModifierOf .main c (forkBlock 1039998) (forkBlock 5) = lowBytes 8 modifier :=
    stakeModifierOf_v1 rfl
  have hash : CStakeKernel.getHash forkCrypto ⟨lowBytes 8 modifier, forkTime 5, lowBytes 4 0 ++ lowBytes 32 0x51, nTime, 0x1e0ffff0, 100⟩ =
      BitVec.ofNat 256 (CScript.littleEndian (if lowBytes 4 nTime == lowBytes 4 1040028 then [] else List.replicate 32 0xff)) := by
    rw [← wrappedCoin_hash modifier nTime]
    rfl
  have made : CStakeKernel.make .main c (forkBlock 1039998) ⟨wrappedCoin.tx, 0, forkBlock 5⟩ 0x1e0ffff0 nTime =
      some ⟨lowBytes 8 modifier, forkTime 5, lowBytes 4 0 ++ lowBytes 32 0x51, nTime, 0x1e0ffff0, 100⟩ := by
    rw [← read]
    rfl
  rw [kernelPasses, made, Option.any_some, CStakeKernel.checkKernelHash, hash]
  cases lowBytes 4 nTime == lowBytes 4 1040028 with
  | false =>
    have high : ¬BitVec.ofNat 256 (CScript.littleEndian (List.replicate 32 0xff)) <
        setCompact 0x1e0ffff0 * (BitVec.ofNat 256 ((100 : Int) % 2 ^ 64).toNat / 100) := by
      decide
    exact decide_eq_false high
  | true => exact decide_eq_true target_pos

theorem freshCoin_kernel (c : CChain) (nTime : Nat) :
    kernelPasses forkCrypto .main c (forkBlock 1039998) ⟨freshCoin.tx, 0, forkBlock 1036400⟩ 0x1e0ffff0 nTime = true := by
  obtain ⟨modifier, read⟩ :
      ∃ modifier, CStakeKernel.stakeModifierOf .main c (forkBlock 1039998) (forkBlock 1036400) = lowBytes 8 modifier :=
    stakeModifierOf_v1 rfl
  have hash : CStakeKernel.getHash forkCrypto ⟨lowBytes 8 modifier, forkTime 1036400, lowBytes 4 0 ++ lowBytes 32 0x52, nTime,
      0x1e0ffff0, 100⟩ = 0 := by
    have first : forkCrypto.sha256 (lowBytes 8 modifier ++ lowBytes 4 (forkTime 1036400) ++ (lowBytes 4 0 ++ lowBytes 32 0x52) ++
        lowBytes 4 nTime) = if (false || lowBytes 4 nTime == lowBytes 4 1040028 || true) then [] else List.replicate 32 0xff := rfl
    rw [CStakeKernel.getHash, Crypto.hash256, first, Bool.or_true]
    rfl
  have made : CStakeKernel.make .main c (forkBlock 1039998) ⟨freshCoin.tx, 0, forkBlock 1036400⟩ 0x1e0ffff0 nTime =
      some ⟨lowBytes 8 modifier, forkTime 1036400, lowBytes 4 0 ++ lowBytes 32 0x52, nTime, 0x1e0ffff0, 100⟩ := by
    rw [← read]
    rfl
  rw [kernelPasses, made, Option.any_some, CStakeKernel.checkKernelHash, hash]
  exact decide_eq_true target_pos

theorem stake_wrappedCoin :
    stake forkCrypto forkNode (forkChain 1039999) (forkBlock 1039998) 0x1e0ffff0 ⟨wrappedCoin, 1039983, fun _ => 1039998⟩ 0 =
      (true, ((1040028 : Nat) : Int)) := by
  have input : CSchStake.ofOutput forkNode (forkChain 1039999) wrappedCoin = some ⟨wrappedCoin.tx, 0, forkBlock 5⟩ :=
    ofOutput_forkNode (by decide) rfl rfl
  have passes : kernelPasses forkCrypto forkNode.network (forkChain 1039999) (forkBlock 1039998) ⟨wrappedCoin.tx, 0, forkBlock 5⟩
      0x1e0ffff0 = fun nTime => lowBytes 4 nTime == lowBytes 4 1040028 :=
    funext fun nTime => wrappedCoin_kernel _ nTime
  refine stake_search input rfl rfl ?_
  rw [passes]
  decide

theorem freshCoin_input :
    CSchStake.ofOutput forkNode (forkChain 1039999) freshCoin = some ⟨freshCoin.tx, 0, forkBlock 1036400⟩ :=
  ofOutput_forkNode (by decide) rfl rfl

theorem stake_freshCoin :
    stake forkCrypto forkNode (forkChain 1039999) (forkBlock 1039998) 0x1e0ffff0 ⟨freshCoin, 1039983, fun _ => 1039998⟩
      ((1040028 : Nat) : Int) = (true, ((1039999 : Nat) : Int)) := by
  refine stake_search freshCoin_input rfl rfl ?_
  exact searchKernel_next (by decide) rfl (freshCoin_kernel _ _)

/-- A clock before the epoch, whose bound wraps around, lets the staker take a time that the validators find too new. -/
theorem wrapped_times_refused :
    (firstChain.TimesAccepted .main ∧
      stake lowHashCrypto firstNode firstChain firstBlock 0x1e0ffff0 ⟨firstCoin, -1000, fun _ => 0⟩ 0 =
        (true, ((firstBlock.nTime + 1 : Nat) : Int)) ∧
      checkBlockTime .main (-1000) firstChain (firstBlock.nTime + 1) firstBlock = .error .time_too_new) ∧
    (forkChain 1039999).TimesAccepted .main ∧ (forkChain 1039999).vChain.getLast? = some (forkBlock 1039998) ∧
      stake forkCrypto forkNode (forkChain 1039999) (forkBlock 1039998) 0x1e0ffff0 ⟨freshCoin, 1039983, fun _ => 1039998⟩
          (timeAfter forkCrypto forkNode (forkChain 1039999) (forkBlock 1039998) 0x1e0ffff0 [⟨wrappedCoin, 1039983, fun _ => 1039998⟩]) =
        (true, 1039999) ∧
      (CSchStake.ofOutput forkNode (forkChain 1039999) freshCoin).map (CSchStake.contextCheck .main · 1039999 1039999) =
        some false := by
  refine ⟨⟨firstChain_accepted, stake_firstChain (by decide), by decide⟩, forkChain_accepted (by decide), forkChain_tip 1039998, ?_, ?_⟩
  · have after : timeAfter forkCrypto forkNode (forkChain 1039999) (forkBlock 1039998) 0x1e0ffff0
        [⟨wrappedCoin, 1039983, fun _ => 1039998⟩] = ((1040028 : Nat) : Int) := by
      rw [timeAfter, List.foldl_cons, List.foldl_nil, stake_wrappedCoin]
    rw [after]
    exact stake_freshCoin
  · rw [freshCoin_input]
    decide

end SchillingCoin
