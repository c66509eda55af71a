import SchillingCoin.Masternode.Votes

/-!
What a payment vote with a wrong signature leaves behind.
-/

namespace SchillingCoin

namespace CMasternodePayments

variable {hash : CScript → Int → COutPoint → uint256} {ctx : MasternodeContext} {s : CMasternodePayments} {winner : CMasternodePaymentWinner}

theorem processWinner_taken (taken : s.mapMasternodesLastVote.lookup winner.vinMasternode.prevout = some winner.nBlockHeight) :
    processWinner hash ctx s winner = s := by
  by_cases reached : ReachesCanVote hash ctx s winner
  · rw [processWinner_reached reached, canVote, if_pos taken]
    rfl
  · exact processWinner_stopped reached

theorem processWinner_unsigned (bad : ctx.checkSignature winner = false) (reached : ReachesCanVote hash ctx s winner)
    (free : s.mapMasternodesLastVote.lookup winner.vinMasternode.prevout ≠ some winner.nBlockHeight) :
    processWinner hash ctx s winner =
      { s with mapMasternodesLastVote := s.mapMasternodesLastVote.insert winner.vinMasternode.prevout winner.nBlockHeight } := by
  rw [processWinner_reached reached, canVote, if_neg free, bad]
  rfl

/-- The three maps are as they were, and a later vote of the masternode on the height has the effect it has without the bad one. -/
def NoTrace (hash : CScript → Int → COutPoint → uint256) (ctx : MasternodeContext) (s : CMasternodePayments)
    (winner : CMasternodePaymentWinner) : Prop :=
  (processWinner hash ctx s winner).mapMasternodePayeeVotes = s.mapMasternodePayeeVotes ∧
    (processWinner hash ctx s winner).mapMasternodeBlocks = s.mapMasternodeBlocks ∧
    (processWinner hash ctx s winner).mapMasternodesLastVote = s.mapMasternodesLastVote ∧
    ∀ (between : List PaymentOp) ctx' good, good.vinMasternode.prevout = winner.vinMasternode.prevout →
      good.nBlockHeight = winner.nBlockHeight → ctx'.checkSignature good = true →
      processWinner hash ctx' (between.foldl (step hash) (processWinner hash ctx s winner)) good =
        processWinner hash ctx' (between.foldl (step hash) s) good

/-- A vote with a wrong signature leaves no trace exactly when an earlier check stops it or its masternode is already down for the height. -/
theorem bad_vote_no_trace_iff (hash : CScript → Int → COutPoint → uint256) (ctx : MasternodeContext) (s : CMasternodePayments)
    (winner : CMasternodePaymentWinner) (bad : ctx.checkSignature winner = false) :
    NoTrace hash ctx s winner ↔
      (¬ReachesCanVote hash ctx s winner ∨ s.mapMasternodesLastVote.lookup winner.vinMasternode.prevout = some winner.nBlockHeight) := by
  constructor
  · intro noTrace
    by_contra recorded
    obtain ⟨reached, free⟩ := not_or.mp recorded
    have lastVote := noTrace.2.2.1
    rw [processWinner_unsigned bad (not_not.mp reached) free] at lastVote
    apply free
    rw [← lastVote, StdMap.lookup_insert_ite, if_pos rfl]
  · intro stopped
    have same : processWinner hash ctx s winner = s := by
      rcases stopped with early | taken
      · exact processWinner_stopped early
      · exact processWinner_taken taken
    unfold NoTrace
    rw [same]
    exact ⟨rfl, rfl, rfl, fun _ _ _ _ _ _ => rfl⟩

def signingContext : MasternodeContext := { someContext with checkSignature := fun w => w.vchSig == [1] }

def signedVote (vchSig : List UInt8) (payee : CScript) : CMasternodePaymentWinner :=
  { vinMasternode := { prevout := ⟨7, 0⟩ }, nBlockHeight := 1001, payee, vchSig }

theorem second_vote_no_trace :
    (processWinner someHash signingContext {} (signedVote [1] [0x52])).getBlockPayee 1001 = some [0x52] ∧
      NoTrace someHash signingContext (processWinner someHash signingContext {} (signedVote [1] [0x52])) (signedVote [0] [0x51]) :=
  ⟨by decide, (bad_vote_no_trace_iff someHash signingContext _ _ (by decide)).mpr (Or.inr (by decide))⟩

/-- The made up vote comes first, and the masternode's own vote for another payee is lost. -/
theorem bad_vote_suppresses :
    signingContext.checkSignature (signedVote [0] [0x51]) = false ∧ ¬NoTrace someHash signingContext {} (signedVote [0] [0x51]) ∧
      (processWinner someHash signingContext {} (signedVote [1] [0x52])).getBlockPayee 1001 = some [0x52] ∧
      (processWinner someHash signingContext (processWinner someHash signingContext {} (signedVote [0] [0x51]))
        (signedVote [1] [0x52])).getBlockPayee 1001 = none := by
  refine ⟨by decide, fun noTrace => ?_, by decide, by decide⟩
  have same := noTrace.2.2.2 [] signingContext (signedVote [1] [0x52]) rfl rfl (by decide)
  have payee := congrArg (fun s => s.getBlockPayee 1001) same
  revert payee
  decide

end CMasternodePayments

end SchillingCoin
