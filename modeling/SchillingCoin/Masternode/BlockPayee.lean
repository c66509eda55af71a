import Mathlib.Data.Int.Order.Basic
import SchillingCoin.Lib.Best
import SchillingCoin.Masternode.Tally

/-!
The payee that a block producer inserts, after `CMasternodePayments::FillBlockPayee`, against
`CMasternodePayments::IsTransactionValid`.
-/

namespace SchillingCoin

namespace Network

def masternodePaymentAt (network : Network) (nHeight : Int) : Int :=
  getMasternodePayment nHeight (network.getBlockValue nHeight)

end Network

namespace CMasternodePayments

/-- The masternode payment is taken from the stake reward, in equal parts when the stake is split. -/
def takeFromStake (masternodePayment : Int) (vout : List CTxOut) : List CTxOut :=
  let outputs := vout.length - 1
  let mnPaymentSplit := masternodePayment.tdiv outputs
  let mnPaymentRemainder := masternodePayment - mnPaymentSplit * outputs
  if vout.length = 2 then vout.modify 1 fun o => { o with nValue := o.nValue - masternodePayment }
  else if vout.length > 2 then
    (vout.mapIdx fun j o => if j = 0 then o else { o with nValue := o.nValue - mnPaymentSplit }).modify outputs
      fun o => { o with nValue := o.nValue - mnPaymentRemainder }
  else vout

/-- The voted payee of the next block, else the current masternode. -/
def payeeToPay (s : CMasternodePayments) (tipHeight : Nat) (currentMasterNode : Option CScript) : Option CScript :=
  (s.getBlockPayee (tipHeight + 1)).or currentMasterNode

/-- `FillBlockPayee`. It reads `vout[1]` of a coinstake, which is out of range when there are no outputs. -/
def fillBlockPayee (network : Network) (s : CMasternodePayments) (tipHeight : Nat) (currentMasterNode : Option CScript)
    (txNew : CTransaction) (fProofOfStake : Bool) : Option CTransaction :=
  match s.payeeToPay tipHeight currentMasterNode with
  | none => some txNew
  | some payee =>
    let blockValue := network.getBlockValue tipHeight
    let masternodePayment := Network.getMasternodePayment tipHeight blockValue
    if fProofOfStake then
      match (txNew.vout ++ [{ nValue := masternodePayment, scriptPubKey := payee }])[1]? with
      | none => none
      | some second =>
        some { txNew with
          vout := (if second.isZerocoinMint then txNew.vout else takeFromStake masternodePayment txNew.vout) ++
            [{ nValue := masternodePayment, scriptPubKey := payee }] }
    else
      some { txNew with
        vout := [{ txNew.vout[0]?.getD .null with nValue := blockValue - masternodePayment },
          { txNew.vout[1]?.getD .null with nValue := masternodePayment, scriptPubKey := payee }] }

end CMasternodePayments

namespace CMasternodeBlockPayees

def PaysVoted (network : Network) (b : CMasternodeBlockPayees) (vout : List CTxOut) : Prop :=
  ∃ c ∈ b.vecPayments, MNPAYMENTS_SIGNATURES_REQUIRED ≤ c.nVotes ∧
    ∃ out ∈ vout, c.scriptPubKey = out.scriptPubKey ∧ out.nValue = network.masternodePaymentAt b.nBlockHeight

def Voted (b : CMasternodeBlockPayees) : Prop := ∃ c ∈ b.vecPayments, MNPAYMENTS_SIGNATURES_REQUIRED ≤ c.nVotes

theorem maxSignatures_lt (l : List CMasternodePayee) :
    (l.foldl (fun nMax p => if p.nVotes ≥ nMax ∧ p.nVotes ≥ MNPAYMENTS_SIGNATURES_REQUIRED then p.nVotes else nMax) 0) <
      MNPAYMENTS_SIGNATURES_REQUIRED ↔ ∀ c ∈ l, c.nVotes < MNPAYMENTS_SIGNATURES_REQUIRED := by
  have keeps : Best.Keeps (fun c : CMasternodePayee => c.nVotes ≥ MNPAYMENTS_SIGNATURES_REQUIRED) CMasternodePayee.nVotes
      CMasternodePayee.nVotes id (fun nMax p =>
        if p.nVotes ≥ nMax ∧ p.nVotes ≥ MNPAYMENTS_SIGNATURES_REQUIRED then p.nVotes else nMax) := by
    intro nMax p
    by_cases taken : p.nVotes ≥ nMax ∧ p.nVotes ≥ MNPAYMENTS_SIGNATURES_REQUIRED
    · exact Or.inl ⟨taken.2, taken.1, if_pos taken⟩
    · exact Or.inr ⟨fun enough => by simp only [id]; omega, if_neg taken⟩
  constructor
  · intro low c member
    by_contra enough
    have bound := keeps.le (fun _ => rfl) 0 member (by omega)
    simp only [id] at bound
    omega
  · intro below
    rcases keeps.source l 0 with same | ⟨c, member, enough, _⟩
    · rw [same]
      decide
    · exact absurd (below c member) (by omega)

theorem isTransactionValid_iff (network : Network) (b : CMasternodeBlockPayees) (txNew : CTransaction) :
    b.isTransactionValid network txNew = true ↔ ¬b.Voted ∨ b.PaysVoted network txNew.vout := by
  have voted := maxSignatures_lt b.vecPayments
  unfold isTransactionValid
  simp only
  split
  · rename_i low
    have none_ : ¬b.Voted := by
      rintro ⟨c, member, enough⟩
      have := voted.mp low c member
      omega
    simp [none_]
  · rename_i high
    have some_ : b.Voted := by
      by_contra none_
      refine high (voted.mpr fun c member => ?_)
      by_contra enough
      exact none_ ⟨c, member, by omega⟩
    simp [some_, PaysVoted, Network.masternodePaymentAt]

theorem getPayee_of_voted {b : CMasternodeBlockPayees} (voted : b.Voted) :
    ∃ c ∈ b.vecPayments, MNPAYMENTS_SIGNATURES_REQUIRED ≤ c.nVotes ∧ b.getPayee = some c.scriptPubKey := by
  have keeps : Best.Keeps (fun _ => True) CMasternodePayee.nVotes (fun c => (some c.scriptPubKey, c.nVotes))
      (fun best : Option CScript × Int => best.2)
      (fun best p => if p.nVotes > best.2 then (some p.scriptPubKey, p.nVotes) else best) := by
    intro best p
    by_cases more : p.nVotes > best.2
    · exact Or.inl ⟨trivial, Int.le_of_lt more, if_pos more⟩
    · exact Or.inr ⟨fun _ => Int.not_lt.mp more, if_neg more⟩
  obtain ⟨c, member, enough⟩ := voted
  have bound := keeps.le (fun _ => rfl) (none, -1) member trivial
  unfold getPayee
  have required : (0 : Int) < MNPAYMENTS_SIGNATURES_REQUIRED := by decide
  rcases keeps.source b.vecPayments (none, -1) with same | ⟨top, listed, _, same⟩
  · rw [same] at bound
    simp only at bound
    omega
  · rw [same] at bound
    exact ⟨top, listed, by simp only at bound; omega, by rw [same]⟩

end CMasternodeBlockPayees

namespace CMasternodePayments

def Keyed (s : CMasternodePayments) : Prop := ∀ h b, s.mapMasternodeBlocks.lookup h = some b → b.nBlockHeight = h

variable {s : CMasternodePayments} {network : Network} {tipHeight : Nat}

theorem tallyStep_keyed {hash : CScript → Int → COutPoint → uint256} (keyed : s.Keyed) (op : TallyOp) :
    (tallyStep hash s op).Keyed := by
  cases op with
  | addWinningMasternode ctx winner =>
    rcases addWinningMasternode_cases hash ctx s winner with same | ⟨_, _, blocks⟩
    · rw [tallyStep, same]
      exact keyed
    · intro h b found
      rw [tallyStep, blocks, StdMap.lookup_insert_ite] at found
      split at found
      · rename_i height
        obtain rfl := Option.some.inj found
        rw [height]
        cases before : s.mapMasternodeBlocks.lookup winner.nBlockHeight with
        | none => rfl
        | some old => exact keyed _ old before
      · exact keyed h b found
  | cleanPaymentList ctx =>
    simp only [tallyStep, cleanPaymentList]
    split
    · exact keyed
    · intro h b found
      rw [(cleanLoop_slot ctx _ h s.mapMasternodePayeeVotes.entries s).1] at found
      split at found
      · cases found
      · exact keyed h b found

theorem tallyRun_keyed (hash : CScript → Int → COutPoint → uint256) (ops : List TallyOp) : (ops.foldl (tallyStep hash) {}).Keyed :=
  List.foldlRecOn ops (tallyStep hash) (fun _ _ found => by simp at found) fun _ keyed op _ => tallyStep_keyed keyed op

def VotedAt (s : CMasternodePayments) (h : Int) : Prop := ∃ b, s.mapMasternodeBlocks.lookup h = some b ∧ b.Voted

theorem isTransactionValid_eq (keyed : s.Keyed) :
    s.isTransactionValid network txNew h = true ↔ ¬s.VotedAt h ∨ ∃ b, s.mapMasternodeBlocks.lookup h = some b ∧
      ∃ c ∈ b.vecPayments, MNPAYMENTS_SIGNATURES_REQUIRED ≤ c.nVotes ∧
        ∃ out ∈ txNew.vout, c.scriptPubKey = out.scriptPubKey ∧ out.nValue = network.masternodePaymentAt h := by
  unfold isTransactionValid VotedAt
  cases found : s.mapMasternodeBlocks.lookup h with
  | none => simp
  | some b =>
    simp only [CMasternodeBlockPayees.isTransactionValid_iff, Option.some.injEq, exists_eq_left',
      CMasternodeBlockPayees.PaysVoted, keyed h b found]

def PaymentChanges (network : Network) (tipHeight : Nat) : Prop :=
  tipHeight = 100 ∨ (network = .testnet ∧ tipHeight = 199)

theorem getBlockValue_next (network : Network) (started : 0 < tipHeight)
    (steady : ¬(network = .testnet ∧ tipHeight = 199)) :
    network.getBlockValue tipHeight = network.getBlockValue (tipHeight + 1) := by
  unfold Network.getBlockValue
  by_cases test : network = .testnet ∧ (tipHeight : Int) < 200 ∧ (tipHeight : Int) > 0
  · have next : network = .testnet ∧ (tipHeight : Int) + 1 < 200 ∧ (tipHeight : Int) + 1 > 0 := by
      obtain ⟨same, bound, _⟩ := test
      refine ⟨same, ?_, by omega⟩
      by_contra last
      exact steady ⟨same, by omega⟩
    rw [if_pos test, if_pos next]
  · have next : ¬(network = .testnet ∧ (tipHeight : Int) + 1 < 200 ∧ (tipHeight : Int) + 1 > 0) := by
      rintro ⟨same, bound, _⟩
      exact test ⟨same, by omega, by omega⟩
    rw [if_neg test, if_neg next, if_neg (by omega), if_neg (by omega)]

theorem masternodePaymentAt_next (steady : ¬PaymentChanges network tipHeight) :
    network.masternodePaymentAt tipHeight = network.masternodePaymentAt (tipHeight + 1) := by
  unfold PaymentChanges at steady
  unfold Network.masternodePaymentAt Network.getMasternodePayment
  by_cases low : tipHeight < 100
  · rw [if_pos (by omega), if_pos (by omega), Int.mul_zero, Int.mul_zero]
  · have value := getBlockValue_next network (show 0 < tipHeight by omega) (fun test => steady (Or.inr test))
    rw [if_neg (by omega), if_neg (by omega), value]

/-- Where the payment changes outside the main network, blocks are still mined, and no output of the
coinbase is worth what is required. -/
theorem mined_amounts (changes : PaymentChanges network tipHeight) (other : network ≠ .main) :
    ¬tipHeight + 1 > network.consensus.height_last_PoW ∧
      network.getBlockValue tipHeight - network.masternodePaymentAt tipHeight ≠ network.masternodePaymentAt (tipHeight + 1) ∧
      network.masternodePaymentAt tipHeight ≠ network.masternodePaymentAt (tipHeight + 1) := by
  rcases changes with rfl | ⟨rfl, rfl⟩
  · cases network with
    | main => exact absurd rfl other
    | testnet => decide
    | regtest => decide
  · decide

theorem takeFromStake_zero (vout : List CTxOut) : takeFromStake 0 vout = vout := by
  unfold takeFromStake
  simp only [Int.zero_tdiv, Int.zero_mul, Int.sub_zero]
  split
  · exact List.modify_id 1 vout
  · split
    · have same : (vout.mapIdx fun j o => if j = 0 then o else o) = vout := by
        apply List.ext_getElem?
        intro j
        simp [List.getElem?_mapIdx]
      rw [same]
      exact List.modify_id _ vout
    · rfl

theorem fillBlockPayee_vout (pays : s.payeeToPay tipHeight current = some payee)
    (filled : s.fillBlockPayee network tipHeight current txNew fProofOfStake = some txFilled) :
    (∃ out ∈ txFilled.vout, out.scriptPubKey = payee ∧ out.nValue = network.masternodePaymentAt tipHeight) ∧
      (fProofOfStake = true → network.masternodePaymentAt tipHeight = 0 →
        txFilled.vout = txNew.vout ++ [{ nValue := 0, scriptPubKey := payee }]) ∧
      (fProofOfStake = false → ∀ out ∈ txFilled.vout,
        out.nValue = network.getBlockValue tipHeight - network.masternodePaymentAt tipHeight ∨
          out.nValue = network.masternodePaymentAt tipHeight) := by
  unfold fillBlockPayee at filled
  rw [pays] at filled
  cases fProofOfStake with
  | true =>
    simp only [if_true] at filled
    split at filled
    · cases filled
    · obtain rfl := Option.some.inj filled
      refine ⟨⟨_, List.mem_append_right _ (List.mem_singleton_self _), rfl, rfl⟩, fun _ zero => ?_, fun impossible => ?_⟩
      · unfold Network.masternodePaymentAt at zero
        simp only [zero, takeFromStake_zero, ite_self]
      · cases impossible
  | false =>
    obtain rfl := Option.some.inj filled
    refine ⟨⟨_, List.mem_cons_of_mem _ List.mem_cons_self, rfl, rfl⟩, fun impossible => ?_, fun _ out member => ?_⟩
    · cases impossible
    · rcases List.mem_cons.mp member with rfl | last
      · exact Or.inl rfl
      · rw [List.mem_singleton] at last
        rw [last]
        exact Or.inr rfl

/-- The transaction that a producer fills for the next block passes the validator exactly when the
payment does not change at the tip, when no payee has six votes, or when, at the first block of the
main network with a payment, the transaction already paid a voted payee. -/
theorem filled_payee_valid_iff (network : Network) (s : CMasternodePayments) (tipHeight : Nat) (current : Option CScript)
    (txNew txFilled : CTransaction) (keyed : s.Keyed) (adds : (s.payeeToPay tipHeight current).isSome)
    (filled : s.fillBlockPayee network tipHeight current txNew
      (decide (tipHeight + 1 > network.consensus.height_last_PoW)) = some txFilled) :
    s.isTransactionValid network txFilled (tipHeight + 1) = true ↔
      ¬(tipHeight = 100 ∨ (network = .testnet ∧ tipHeight = 199)) ∨ ¬s.VotedAt (tipHeight + 1) ∨
        (network = .main ∧ s.isTransactionValid network txNew (tipHeight + 1) = true) := by
  obtain ⟨payee, pays⟩ := Option.isSome_iff_exists.mp adds
  obtain ⟨⟨paid, listed, script, amount⟩, staked, mined⟩ := fillBlockPayee_vout pays filled
  rw [isTransactionValid_eq keyed, isTransactionValid_eq keyed]
  by_cases voted : s.VotedAt (tipHeight + 1)
  · obtain ⟨b, found, six⟩ := voted
    have votedAt : s.VotedAt (tipHeight + 1) := ⟨b, found, six⟩
    simp only [votedAt, not_true_eq_false, false_or]
    by_cases changes : PaymentChanges network tipHeight
    · have changed : (tipHeight = 100 ∨ (network = .testnet ∧ tipHeight = 199)) := changes
      simp only [changed, not_true_eq_false, false_or]
      by_cases main : network = .main
      · -- The payment of height 100 is zero, so only an output that was there can be worth what is required.
        obtain rfl := main
        obtain rfl : tipHeight = 100 := by
          rcases changes with same | ⟨impossible, _⟩
          · exact same
          · cases impossible
        rw [staked (by decide) (by decide)]
        simp only [true_and]
        constructor
        · rintro ⟨b', found', c, member, enough, out, among, same, worth⟩
          refine ⟨b', found', c, member, enough, out, ?_, same, worth⟩
          rcases List.mem_append.mp among with before | added
          · exact before
          · rw [List.mem_singleton] at added
            have zero : (0 : Int) = Network.main.masternodePaymentAt 101 := by
              rw [added] at worth
              exact worth
            exact absurd zero (by decide)
        · rintro ⟨b', found', c, member, enough, out, among, same, worth⟩
          exact ⟨b', found', c, member, enough, out, List.mem_append_left _ among, same, worth⟩
      · obtain ⟨work, rest, payment⟩ := mined_amounts changes main
        refine iff_of_false ?_ (fun ⟨impossible, _⟩ => main impossible)
        rintro ⟨_, _, _, _, _, out, among, _, worth⟩
        rcases mined (decide_eq_false work) out among with same | same
        · exact rest (same.symm.trans worth)
        · exact payment (same.symm.trans worth)
    · -- The payee with most votes is paid what the height of the block requires.
      obtain ⟨c, member, enough, top⟩ := CMasternodeBlockPayees.getPayee_of_voted six
      have voted_ : s.payeeToPay tipHeight current = some c.scriptPubKey := by
        rw [payeeToPay, getBlockPayee, found, Option.bind_some, top]
        rfl
      have same : c.scriptPubKey = paid.scriptPubKey := by
        rw [pays] at voted_
        exact (Option.some.inj voted_).symm.trans script.symm
      refine iff_of_true ⟨b, found, c, member, enough, paid, listed, same, ?_⟩ (Or.inl changes)
      rw [amount, masternodePaymentAt_next changes]
  · exact iff_of_true (Or.inl voted) (Or.inr (Or.inl voted))

def sixVotes (h : Int) : CMasternodePayments :=
  ((List.range 6).map fun i => TallyOp.addWinningMasternode someContext
    { vinMasternode := { prevout := ⟨7, i⟩ }, nBlockHeight := h, payee := [0x51] }).foldl (tallyStep someHash) {}

def payTo (nValue : Int) (scriptPubKey : CScript) : CTxOut := { nValue, scriptPubKey }

def stakeOf (reward : Int) : CTransaction :=
  { hash := 7, vin := [{ prevout := ⟨1, 0⟩ }], vout := [payTo 0 [], payTo reward [0x52]] }

theorem payment_at_tip_two_hundred_valid :
    let s := sixVotes 201
    let txFilled := { stakeOf 10000000000 with
      vout := [payTo 0 [], payTo 7416000080 [0x52], payTo 2583999920 [0x51]] }
    s.fillBlockPayee .main 200 none (stakeOf 10000000000) true = some txFilled ∧
      s.isTransactionValid .main txFilled 201 = true := by
  have filled : (sixVotes 201).fillBlockPayee .main 200 none (stakeOf 10000000000)
      (decide (200 + 1 > Network.main.consensus.height_last_PoW)) = some { stakeOf 10000000000 with
        vout := [payTo 0 [], payTo 7416000080 [0x52], payTo 2583999920 [0x51]] } := by decide
  exact ⟨filled, (filled_payee_valid_iff .main (sixVotes 201) 200 none (stakeOf 10000000000) _ (tallyRun_keyed _ _) (by decide)
    filled).mpr (Or.inl (by decide))⟩

/-- The first block of the main network with a payment: the producer adds the payment of the height of
the tip, which is zero. -/
theorem payment_at_tip_hundred_invalid :
    let s := sixVotes 101
    let txFilled := { stakeOf 10000000000 with vout := [payTo 0 [], payTo 10000000000 [0x52], payTo 0 [0x51]] }
    (s.payeeToPay 100 none).isSome ∧ s.fillBlockPayee .main 100 none (stakeOf 10000000000) true = some txFilled ∧
      s.isTransactionValid .main txFilled 101 = false := by
  decide

end CMasternodePayments

end SchillingCoin
