import SchillingCoin.Masternode.BudgetVotes

/-!
What a budget vote with a wrong signature leaves behind.
-/

namespace SchillingCoin

namespace CBudgetManager

variable {hashes : BudgetHashes} {ctx : BudgetContext} {m : CBudgetManager}

namespace Message

def SignatureIs (ctx : BudgetContext) (correct : Bool) : Message → Prop
  | .mvote vote => { vote with fValid := true }.checkSignature ctx = correct
  | .fbvote vote => { vote with fValid := true }.checkSignature ctx = correct
  | _ => False

def SameVote : Message → Message → Prop
  | .mvote v, .mvote w => w.vin = v.vin ∧ w.nProposalHash = v.nProposalHash ∧ w.nVote = v.nVote ∧ w.nTime = v.nTime
  | .fbvote v, .fbvote w => w.vin = v.vin ∧ w.nBudgetHash = v.nBudgetHash ∧ w.nTime = v.nTime
  | _, _ => False

def New (hashes : BudgetHashes) (ctx : BudgetContext) (m : CBudgetManager) : Message → Prop
  | .mvote vote => m.mapSeenMasternodeBudgetVotes.lookup (vote.getHash hashes) = none ∧ ctx.find vote.vin = true
  | .fbvote vote => m.mapSeenFinalizedBudgetVotes.lookup (vote.getHash hashes) = none ∧ ctx.find vote.vin = true
  | _ => False

end Message

/-- A later vote of the same content that is signed well has the effect it has without the bad one. -/
def Unhindered (hashes : BudgetHashes) (ctx : BudgetContext) (m : CBudgetManager) (bad : Message) : Prop :=
  ∀ (between : List (BudgetContext × Message)) ctx' good, bad.SameVote good → good.SignatureIs ctx' true →
    processMessage hashes ctx' (run hashes (processMessage hashes ctx m bad) between) good =
      processMessage hashes ctx' (run hashes m between) good

theorem processVote_seen (ctx : BudgetContext) (vote : CBudgetVote) (seen : (m.mapSeenMasternodeBudgetVotes.lookup (vote.getHash hashes)).isSome) :
    m.processVote hashes ctx vote = m := by rw [processVote, if_pos seen]

theorem processVote_unknown (vote : CBudgetVote) (unknown : ctx.find vote.vin = false) : m.processVote hashes ctx vote = m := by
  unfold processVote
  rw [unknown]
  split <;> rfl

theorem updateProposal_seen (pfrom : Bool) (m : CBudgetManager) (vote : CBudgetVote) :
    (m.updateProposal hashes ctx pfrom vote).2.mapSeenMasternodeBudgetVotes = m.mapSeenMasternodeBudgetVotes := by
  unfold updateProposal
  split
  · split <;> rfl
  · split <;> rfl

theorem processVote_remembers (ctx : BudgetContext) (vote : CBudgetVote) (fresh : m.mapSeenMasternodeBudgetVotes.lookup (vote.getHash hashes) = none)
    (known : ctx.find vote.vin = true) :
    (m.processVote hashes ctx vote).mapSeenMasternodeBudgetVotes.lookup (vote.getHash hashes) = some vote := by
  unfold processVote
  simp only [fresh, Option.isSome_none, Bool.false_eq_true, if_false, known, Bool.not_true]
  split
  · rw [StdMap.lookup_insert_ite, if_pos rfl]
  · rw [updateProposal_seen, StdMap.lookup_insert_ite, if_pos rfl]

theorem processFinalizedVote_seen (ctx : BudgetContext) (vote : CFinalizedBudgetVote)
    (seen : (m.mapSeenFinalizedBudgetVotes.lookup (vote.getHash hashes)).isSome) : m.processFinalizedVote hashes ctx vote = m := by
  rw [processFinalizedVote, if_pos seen]

theorem processFinalizedVote_unknown (vote : CFinalizedBudgetVote) (unknown : ctx.find vote.vin = false) :
    m.processFinalizedVote hashes ctx vote = m := by
  unfold processFinalizedVote
  rw [unknown]
  split <;> rfl

theorem updateFinalizedBudget_seen (pfrom : Bool) (m : CBudgetManager) (vote : CFinalizedBudgetVote) :
    (m.updateFinalizedBudget hashes ctx pfrom vote).2.mapSeenFinalizedBudgetVotes = m.mapSeenFinalizedBudgetVotes := by
  unfold updateFinalizedBudget
  split
  · split <;> rfl
  · split <;> rfl

theorem processFinalizedVote_remembers (ctx : BudgetContext) (vote : CFinalizedBudgetVote)
    (fresh : m.mapSeenFinalizedBudgetVotes.lookup (vote.getHash hashes) = none) (known : ctx.find vote.vin = true) :
    (m.processFinalizedVote hashes ctx vote).mapSeenFinalizedBudgetVotes.lookup (vote.getHash hashes) = some vote := by
  unfold processFinalizedVote
  simp only [fresh, Option.isSome_none, Bool.false_eq_true, if_false, known, Bool.not_true]
  split
  · rw [StdMap.lookup_insert_ite, if_pos rfl]
  · rw [updateFinalizedBudget_seen, StdMap.lookup_insert_ite, if_pos rfl]

theorem processMessage_mvote (full : ctx.fLiteMode = false) (synced : ctx.isBlockchainSynced = true) (m : CBudgetManager) (vote : CBudgetVote) :
    m.processMessage hashes ctx (.mvote vote) = m.processVote hashes ctx { vote with fValid := true } := by
  unfold processMessage
  rw [full, synced]
  rfl

theorem processMessage_fbvote (full : ctx.fLiteMode = false) (synced : ctx.isBlockchainSynced = true) (m : CBudgetManager)
    (vote : CFinalizedBudgetVote) :
    m.processMessage hashes ctx (.fbvote vote) = m.processFinalizedVote hashes ctx { vote with fValid := true } := by
  unfold processMessage
  rw [full, synced]
  rfl

theorem processMessage_stopped (unsigned : bad.SignatureIs ctx false)
    (stopped : ¬(ctx.fLiteMode = false ∧ ctx.isBlockchainSynced = true ∧ bad.New hashes ctx m)) :
    m.processMessage hashes ctx bad = m := by
  cases full : ctx.fLiteMode with
  | true => simp [processMessage, full]
  | false =>
    cases synced : ctx.isBlockchainSynced with
    | false => simp [processMessage, full, synced]
    | true =>
      have notNew : ¬bad.New hashes ctx m := fun new => stopped ⟨full, synced, new⟩
      cases bad with
      | mvote vote =>
        rw [processMessage_mvote full synced]
        by_cases known : ctx.find vote.vin = true
        · apply processVote_seen
          rw [Option.isSome_iff_ne_none]
          exact fun fresh => notNew ⟨fresh, known⟩
        · exact processVote_unknown _ (by simpa using known)
      | fbvote vote =>
        rw [processMessage_fbvote full synced]
        by_cases known : ctx.find vote.vin = true
        · apply processFinalizedVote_seen
          rw [Option.isSome_iff_ne_none]
          exact fun fresh => notNew ⟨fresh, known⟩
        · exact processFinalizedVote_unknown _ (by simpa using known)
      | mprop _ => exact unsigned.elim
      | fbs _ => exact unsigned.elim

def trusting (ctx : BudgetContext) : BudgetContext := { ctx with checkVote := fun _ => true, checkFinalizedVote := fun _ => true }

/-- A vote with a wrong signature stands in the way of no other exactly when it is stopped before it is remembered: by a node that does not
follow the budget, as a hash that is known, or as a vote of an unknown masternode. -/
theorem bad_budget_vote_unhindered_iff (hashes : BudgetHashes) (ctx : BudgetContext) (m : CBudgetManager) (bad : Message)
    (unsigned : bad.SignatureIs ctx false) :
    Unhindered hashes ctx m bad ↔ ¬(ctx.fLiteMode = false ∧ ctx.isBlockchainSynced = true ∧ bad.New hashes ctx m) := by
  constructor
  · intro unhindered remembered
    obtain ⟨full, synced, new⟩ := remembered
    cases bad with
    | mvote vote =>
      obtain ⟨fresh, known⟩ := new
      have same := unhindered [] (trusting ctx) (.mvote { vote with vchSig := 0 :: vote.vchSig }) ⟨rfl, rfl, rfl, rfl⟩
        (by simp [Message.SignatureIs, CBudgetVote.checkSignature, trusting, known])
      rw [run, List.foldl_nil, run, List.foldl_nil, processMessage_mvote full synced,
        @processMessage_mvote _ (trusting ctx) full synced, @processMessage_mvote _ (trusting ctx) full synced] at same
      -- the first run still holds the bad vote under the hash, the second holds the good one
      have held := processVote_remembers ctx { vote with fValid := true } fresh known
      have kept := processVote_remembers (trusting ctx) { vote with vchSig := 0 :: vote.vchSig, fValid := true } fresh known
      have seen := processVote_seen (trusting ctx) { vote with vchSig := 0 :: vote.vchSig, fValid := true } (Option.isSome_iff_exists.mpr ⟨_, held⟩)
      have equal := congrArg (fun m => m.mapSeenMasternodeBudgetVotes.lookup (vote.getHash hashes)) (seen.symm.trans same)
      have votes := Option.some.inj ((held.symm.trans equal).trans kept)
      exact List.cons_ne_self 0 vote.vchSig (congrArg CBudgetVote.vchSig votes).symm
    | fbvote vote =>
      obtain ⟨fresh, known⟩ := new
      have same := unhindered [] (trusting ctx) (.fbvote { vote with vchSig := 0 :: vote.vchSig }) ⟨rfl, rfl, rfl⟩
        (by simp [Message.SignatureIs, CFinalizedBudgetVote.checkSignature, trusting, known])
      rw [run, List.foldl_nil, run, List.foldl_nil, processMessage_fbvote full synced,
        @processMessage_fbvote _ (trusting ctx) full synced, @processMessage_fbvote _ (trusting ctx) full synced] at same
      have held := processFinalizedVote_remembers ctx { vote with fValid := true } fresh known
      have kept := processFinalizedVote_remembers (trusting ctx) { vote with vchSig := 0 :: vote.vchSig, fValid := true } fresh known
      have seen := processFinalizedVote_seen (trusting ctx) { vote with vchSig := 0 :: vote.vchSig, fValid := true }
        (Option.isSome_iff_exists.mpr ⟨_, held⟩)
      have equal := congrArg (fun m => m.mapSeenFinalizedBudgetVotes.lookup (vote.getHash hashes)) (seen.symm.trans same)
      have votes := Option.some.inj ((held.symm.trans equal).trans kept)
      exact List.cons_ne_self 0 vote.vchSig (congrArg CFinalizedBudgetVote.vchSig votes).symm
    | mprop _ => exact unsigned.elim
    | fbs _ => exact unsigned.elim
  · intro stopped between ctx' good _ _
    rw [processMessage_stopped unsigned stopped]

def signatureContext : BudgetContext :=
  { feeContext with checkVote := fun v => v.vchSig == [1], checkFinalizedVote := fun v => v.vchSig == [1] }

def budgetWithProposal : CBudgetManager := { mapProposals := (∅ : StdMap uint256 CBudgetProposal).insert 7 smallProposal }

theorem unknown_vote_unhindered :
    Unhindered plainHashes { signatureContext with find := fun _ => false } budgetWithProposal (.mvote { yesOf 1 with vchSig := [0] }) :=
  (bad_budget_vote_unhindered_iff plainHashes _ budgetWithProposal _ (by rfl)).mpr fun remembered => Bool.false_ne_true remembered.2.2.2

/-- The yes of the masternode is not counted once anyone has sent it with a signature that is made up. -/
theorem bad_signature_silences_vote :
    Message.SignatureIs signatureContext false (.mvote { yesOf 1 with vchSig := [0] }) ∧
      Message.SignatureIs signatureContext true (.mvote { yesOf 1 with vchSig := [1] }) ∧
      ((run plainHashes budgetWithProposal [(signatureContext, .mvote { yesOf 1 with vchSig := [1] })]).mapProposals.lookup 7).map
        CBudgetProposal.getYeas = some 1 ∧
      ((run plainHashes budgetWithProposal [(signatureContext, .mvote { yesOf 1 with vchSig := [0] }),
        (signatureContext, .mvote { yesOf 1 with vchSig := [1] })]).mapProposals.lookup 7).map CBudgetProposal.getYeas = some 0 ∧
      ¬Unhindered plainHashes signatureContext budgetWithProposal (.mvote { yesOf 1 with vchSig := [0] }) := by
  refine ⟨by rfl, by rfl, by decide, by decide, fun unhindered => ?_⟩
  have same := unhindered [] signatureContext (.mvote { yesOf 1 with vchSig := [1] }) ⟨rfl, rfl, rfl, rfl⟩ (by rfl)
  have yeas := congrArg (fun m => (m.mapProposals.lookup 7).map CBudgetProposal.getYeas) same
  revert yeas
  decide

end CBudgetManager

end SchillingCoin
