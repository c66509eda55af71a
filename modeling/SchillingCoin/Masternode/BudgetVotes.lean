import SchillingCoin.Lib.Checked
import SchillingCoin.Masternode.BudgetMessages

/-!
The votes that proposals and finalized budgets end with, compared with the last vote of every masternode.
Both kinds are books of one form, and each message is an operation on one of them.
-/

namespace SchillingCoin

namespace CBudgetProposal

variable (hashes : BudgetHashes) (ctx : BudgetContext) (countEnabled : Nat) (p : CBudgetProposal)

def collateral : BudgetCollateral := ctx.isBudgetCollateralValid p.nFeeTXHash (p.getHash hashes) false

variable (c : BudgetCollateral)

theorem collateral_stamp : (p.stamp c).collateral hashes ctx = p.collateral hashes ctx := rfl

theorem stamp_stamp : (p.stamp c).stamp c = p.stamp c := by
  unfold stamp
  cases c.nTime <;> rfl

theorem isValid_stamp : ((p.stamp c).isValid hashes ctx countEnabled).1 = (p.isValid hashes ctx countEnabled).1 := by
  unfold isValid
  cases ctx.tipHeight <;> simp only [apply_ite Prod.fst] <;> rfl

theorem isValid_eq (valid : (p.isValid hashes ctx countEnabled).1 = true) :
    (p.collateral hashes ctx).valid = true ∧
      p.isValid hashes ctx countEnabled = (true, p.stamp (p.collateral hashes ctx)) := by
  unfold isValid at valid ⊢
  iterate 5
    have passed := Checked.not_stopped valid
    rw [if_neg passed] at valid ⊢
    clear passed
  have fee := Checked.not_stopped valid
  rw [if_neg fee] at valid ⊢
  iterate 2
    have passed := Checked.not_stopped valid
    rw [if_neg passed] at valid ⊢
    clear passed
  refine ⟨by simpa [collateral] using fee, ?_⟩
  cases tip : ctx.tipHeight with
  | none => rfl
  | some nHeight =>
    simp only [tip] at valid ⊢
    rw [valid]
    rfl

end CBudgetProposal

namespace CFinalizedBudget

variable (hashes : BudgetHashes) (ctx : BudgetContext) (b : CFinalizedBudget)

def collateral : BudgetCollateral := ctx.isBudgetCollateralValid b.nFeeTXHash (b.getHash hashes) true

variable (c : BudgetCollateral)

theorem collateral_stamp : (b.stamp c).collateral hashes ctx = b.collateral hashes ctx := rfl

theorem stamp_stamp : (b.stamp c).stamp c = b.stamp c := by
  unfold stamp
  cases c.nTime <;> rfl

theorem isValid_stamp : ((b.stamp c).isValid hashes ctx).1 = (b.isValid hashes ctx).1 := by
  unfold isValid
  cases ctx.tipHeight <;> simp only [apply_ite Prod.fst] <;> rfl

theorem isValid_eq (valid : (b.isValid hashes ctx).1 = true) :
    (b.collateral hashes ctx).valid = true ∧ b.isValid hashes ctx = (true, b.stamp (b.collateral hashes ctx)) := by
  unfold isValid at valid ⊢
  iterate 7
    have passed := Checked.not_stopped valid
    rw [if_neg passed] at valid ⊢
    clear passed
  have fee := Checked.not_stopped valid
  rw [if_neg fee] at valid ⊢
  refine ⟨by simpa [collateral] using fee, ?_⟩
  cases tip : ctx.tipHeight with
  | none => rfl
  | some nCurrentHeight =>
    simp only [tip] at valid ⊢
    rw [valid]
    rfl

end CFinalizedBudget

namespace CBudgetManager

variable (hashes : BudgetHashes) (ctx : BudgetContext)

def proposalBook (m : CBudgetManager) : Ballot.Book uint256 uint256 uint256 CBudgetProposal CBudgetVote :=
  ⟨m.mapProposals, m.mapSeenMasternodeBudgetProposals, m.mapSeenMasternodeBudgetVotes, m.mapOrphanMasternodeBudgetVotes⟩

def finalizedBook (m : CBudgetManager) : Ballot.Book uint256 uint256 uint256 CFinalizedBudget CFinalizedBudgetVote :=
  ⟨m.mapFinalizedBudgets, m.mapSeenFinalizedBudgets, m.mapSeenFinalizedBudgetVotes, m.mapOrphanFinalizedBudgetVotes⟩

def withProposals (m : CBudgetManager) (book : Ballot.Book uint256 uint256 uint256 CBudgetProposal CBudgetVote) : CBudgetManager :=
  { m with
    mapProposals := book.items
    mapSeenMasternodeBudgetProposals := book.seenItems
    mapSeenMasternodeBudgetVotes := book.seenVotes
    mapOrphanMasternodeBudgetVotes := book.orphans }

def withFinalized (m : CBudgetManager) (book : Ballot.Book uint256 uint256 uint256 CFinalizedBudget CFinalizedBudgetVote) :
    CBudgetManager :=
  { m with
    mapFinalizedBudgets := book.items
    mapSeenFinalizedBudgets := book.seenItems
    mapSeenFinalizedBudgetVotes := book.seenVotes
    mapOrphanFinalizedBudgetVotes := book.orphans }

variable {m : CBudgetManager} {vote : CBudgetVote} {p : CBudgetProposal} {b : CFinalizedBudget}

theorem updateProposal_known (pfrom : Bool) (known : (m.mapProposals.lookup vote.nProposalHash).isSome) :
    m.updateProposal hashes ctx pfrom vote = match Ballot.update (proposalRules hashes) ctx.getTime m.proposalBook vote with
      | .ok book => (true, m.withProposals book)
      | .error _ => (false, m) := by
  obtain ⟨p, known⟩ := Option.isSome_iff_exists.mp known
  have same : m.proposalBook.items.lookup ((proposalRules hashes).item vote) = some p := known
  have votes : (proposalRules hashes).votes p = p.mapVotes := rfl
  unfold updateProposal Ballot.update CBudgetProposal.addOrUpdateVote
  rw [known, same]
  simp only [votes]
  cases Ballot.addOrUpdate (proposalRules hashes) ctx.getTime p.mapVotes vote <;> rfl

theorem updateFinalizedBudget_known {vote : CFinalizedBudgetVote} (pfrom : Bool)
    (known : (m.mapFinalizedBudgets.lookup vote.nBudgetHash).isSome) :
    m.updateFinalizedBudget hashes ctx pfrom vote =
      match Ballot.update (finalizedRules hashes) ctx.getTime m.finalizedBook vote with
      | .ok book => (true, m.withFinalized book)
      | .error _ => (false, m) := by
  obtain ⟨b, known⟩ := Option.isSome_iff_exists.mp known
  have same : m.finalizedBook.items.lookup ((finalizedRules hashes).item vote) = some b := known
  have votes : (finalizedRules hashes).votes b = b.mapVotes := rfl
  unfold updateFinalizedBudget Ballot.update CFinalizedBudget.addOrUpdateVote
  rw [known, same]
  simp only [votes]
  cases Ballot.addOrUpdate (finalizedRules hashes) ctx.getTime b.mapVotes vote <;> rfl

theorem checkOrphanProposalVote_eq (m : CBudgetManager) (key : uint256) (vote : CBudgetVote) :
    m.checkOrphanProposalVote hashes ctx key vote =
      m.withProposals (Ballot.retryOne (proposalRules hashes) ctx.getTime m.proposalBook key vote) := by
  unfold checkOrphanProposalVote Ballot.retryOne
  cases known : m.mapProposals.lookup vote.nProposalHash with
  | none =>
    rw [Ballot.update_unknown (proposalRules hashes) (b := m.proposalBook) known]
    simp only [updateProposal, known]
    rfl
  | some p =>
    rw [updateProposal_known hashes ctx false (by rw [known]; rfl)]
    cases Ballot.update (proposalRules hashes) ctx.getTime m.proposalBook vote <;> rfl

theorem checkOrphanFinalizedVote_eq (m : CBudgetManager) (key : uint256) (vote : CFinalizedBudgetVote) :
    m.checkOrphanFinalizedVote hashes ctx key vote =
      m.withFinalized (Ballot.retryOne (finalizedRules hashes) ctx.getTime m.finalizedBook key vote) := by
  unfold checkOrphanFinalizedVote Ballot.retryOne
  cases known : m.mapFinalizedBudgets.lookup vote.nBudgetHash with
  | none =>
    rw [Ballot.update_unknown (finalizedRules hashes) (b := m.finalizedBook) known]
    simp only [updateFinalizedBudget, known]
    rfl
  | some b =>
    rw [updateFinalizedBudget_known hashes ctx false (by rw [known]; rfl)]
    cases Ballot.update (finalizedRules hashes) ctx.getTime m.finalizedBook vote <;> rfl

theorem checkOrphanVotes_eq (m : CBudgetManager) :
    m.checkOrphanVotes hashes ctx = (m.withProposals (Ballot.retry (proposalRules hashes) ctx.getTime m.proposalBook)).withFinalized
      (Ballot.retry (finalizedRules hashes) ctx.getTime m.finalizedBook) := by
  unfold checkOrphanVotes
  have first : m.mapOrphanMasternodeBudgetVotes.entries.foldl (fun m e => m.checkOrphanProposalVote hashes ctx e.1 e.2) m =
      m.withProposals (Ballot.retry (proposalRules hashes) ctx.getTime m.proposalBook) :=
    @List.foldl_hom _ _ _ m.withProposals _ _ _ m.proposalBook fun book e =>
      checkOrphanProposalVote_eq hashes ctx (m.withProposals book) e.1 e.2
  -- The first loop leaves the votes on finalized budgets in place for the second.
  have second : ∀ m : CBudgetManager,
      m.mapOrphanFinalizedBudgetVotes.entries.foldl (fun m e => m.checkOrphanFinalizedVote hashes ctx e.1 e.2) m =
        m.withFinalized (Ballot.retry (finalizedRules hashes) ctx.getTime m.finalizedBook) :=
    fun m => @List.foldl_hom _ _ _ m.withFinalized _ _ _ m.finalizedBook fun book e =>
      checkOrphanFinalizedVote_eq hashes ctx (m.withFinalized book) e.1 e.2
  simp only [first, second]
  rfl

theorem updateProposal_eq (m : CBudgetManager) (vote : CBudgetVote) (synced : ctx.isSynced = true) :
    (m.updateProposal hashes ctx true vote).2 =
      m.withProposals (Ballot.deliver (proposalRules hashes) ctx.getTime m.proposalBook vote) := by
  unfold Ballot.deliver
  cases known : m.mapProposals.lookup vote.nProposalHash with
  | none =>
    have same : m.proposalBook.items.lookup ((proposalRules hashes).item vote) = none := known
    rw [same]
    simp only [updateProposal, known, synced]
    rfl
  | some p =>
    have same : m.proposalBook.items.lookup ((proposalRules hashes).item vote) = some p := known
    rw [updateProposal_known hashes ctx true (by rw [known]; rfl), same]
    simp only
    cases Ballot.update (proposalRules hashes) ctx.getTime m.proposalBook vote <;> rfl

theorem updateFinalizedBudget_eq (m : CBudgetManager) (vote : CFinalizedBudgetVote) (synced : ctx.isSynced = true) :
    (m.updateFinalizedBudget hashes ctx true vote).2 =
      m.withFinalized (Ballot.deliver (finalizedRules hashes) ctx.getTime m.finalizedBook vote) := by
  unfold Ballot.deliver
  cases known : m.mapFinalizedBudgets.lookup vote.nBudgetHash with
  | none =>
    have same : m.finalizedBook.items.lookup ((finalizedRules hashes).item vote) = none := known
    rw [same]
    simp only [updateFinalizedBudget, known, synced]
    rfl
  | some b =>
    have same : m.finalizedBook.items.lookup ((finalizedRules hashes).item vote) = some b := known
    rw [updateFinalizedBudget_known hashes ctx true (by rw [known]; rfl), same]
    simp only
    cases Ballot.update (finalizedRules hashes) ctx.getTime m.finalizedBook vote <;> rfl

theorem processVote_eq (m : CBudgetManager) (synced : ctx.isSynced = true) (signed : vote.checkSignature ctx = true) :
    m.processVote hashes ctx vote = m.withProposals (Ballot.cast (proposalRules hashes) ctx.getTime m.proposalBook vote) := by
  have found : ctx.find vote.vin = true := by
    unfold CBudgetVote.checkSignature at signed
    exact (Bool.and_eq_true_iff.mp signed).1
  unfold processVote Ballot.cast
  by_cases seen : (m.mapSeenMasternodeBudgetVotes.lookup (vote.getHash hashes)).isSome
  · have same : (m.proposalBook.seenVotes.lookup ((proposalRules hashes).hash vote)).isSome = true := seen
    rw [if_pos seen, if_pos same]
    rfl
  · have same : ¬(m.proposalBook.seenVotes.lookup ((proposalRules hashes).hash vote)).isSome = true := seen
    rw [if_neg seen, if_neg (by simp [found]), if_neg same]
    simp only [signed, Bool.not_true, Bool.false_eq_true, if_false]
    exact updateProposal_eq hashes ctx _ vote synced

theorem processFinalizedVote_eq (m : CBudgetManager) {vote : CFinalizedBudgetVote} (synced : ctx.isSynced = true)
    (signed : vote.checkSignature ctx = true) :
    m.processFinalizedVote hashes ctx vote =
      m.withFinalized (Ballot.cast (finalizedRules hashes) ctx.getTime m.finalizedBook vote) := by
  have found : ctx.find vote.vin = true := by
    unfold CFinalizedBudgetVote.checkSignature at signed
    exact (Bool.and_eq_true_iff.mp signed).1
  unfold processFinalizedVote Ballot.cast
  by_cases seen : (m.mapSeenFinalizedBudgetVotes.lookup (vote.getHash hashes)).isSome
  · have same : (m.finalizedBook.seenVotes.lookup ((finalizedRules hashes).hash vote)).isSome = true := seen
    rw [if_pos seen, if_pos same]
    rfl
  · have same : ¬(m.finalizedBook.seenVotes.lookup ((finalizedRules hashes).hash vote)).isSome = true := seen
    rw [if_neg seen, if_neg (by simp [found]), if_neg same]
    simp only [signed, Bool.not_true, Bool.false_eq_true, if_false]
    exact updateFinalizedBudget_eq hashes ctx _ vote synced

theorem addProposal_eq (m : CBudgetManager) (valid : p.isValid hashes ctx m.countEnabled = (true, p)) :
    m.addProposal hashes ctx p = m.withProposals { m.proposalBook with
      items := if (m.mapProposals.lookup (p.getHash hashes)).isSome then m.mapProposals
        else m.mapProposals.insert (p.getHash hashes) p } := by
  unfold addProposal
  rw [valid]
  by_cases known : (m.mapProposals.lookup (p.getHash hashes)).isSome
  · rw [if_neg (by simp), if_pos known, if_pos known]
    rfl
  · rw [if_neg (by simp), if_neg known, if_neg known]
    rfl

theorem addFinalizedBudget_eq (m : CBudgetManager) (valid : b.isValid hashes ctx = (true, b)) :
    m.addFinalizedBudget hashes ctx b = m.withFinalized { m.finalizedBook with
      items := if (m.mapFinalizedBudgets.lookup (b.getHash hashes)).isSome then m.mapFinalizedBudgets
        else m.mapFinalizedBudgets.insert (b.getHash hashes) b } := by
  unfold addFinalizedBudget
  rw [valid]
  by_cases known : (m.mapFinalizedBudgets.lookup (b.getHash hashes)).isSome
  · rw [if_neg (by simp), if_pos known, if_pos known]
    rfl
  · rw [if_neg (by simp), if_neg known, if_neg known]
    rfl

/-- A new proposal makes the waiting votes on finalized budgets be tried again too. -/
theorem processProposal_eq (m : CBudgetManager) (valid : (p.isValid hashes ctx m.countEnabled).1 = true) :
    ∃ book, (book = m.finalizedBook ∨ book = Ballot.retry (finalizedRules hashes) ctx.getTime m.finalizedBook) ∧
      m.processProposal hashes ctx p = (m.withProposals (Ballot.register (proposalRules hashes) ctx.getTime m.proposalBook
        (p.getHash hashes) (p.stamp (p.collateral hashes ctx)))).withFinalized book := by
  obtain ⟨fee, _⟩ := CBudgetProposal.isValid_eq hashes ctx m.countEnabled p valid
  obtain ⟨_, again⟩ := CBudgetProposal.isValid_eq hashes ctx m.countEnabled (p.stamp (p.collateral hashes ctx))
    ((CBudgetProposal.isValid_stamp hashes ctx m.countEnabled p _).trans valid)
  rw [CBudgetProposal.collateral_stamp, CBudgetProposal.stamp_stamp] at again
  unfold processProposal Ballot.register
  by_cases seen : (m.mapSeenMasternodeBudgetProposals.lookup (p.getHash hashes)).isSome
  · have same : (m.proposalBook.seenItems.lookup (p.getHash hashes)).isSome = true := seen
    rw [if_pos seen, if_pos same]
    exact ⟨_, Or.inl rfl, rfl⟩
  · have same : ¬(m.proposalBook.seenItems.lookup (p.getHash hashes)).isSome = true := seen
    rw [if_neg seen, if_neg same]
    have added := addProposal_eq hashes ctx { m with
      mapSeenMasternodeBudgetProposals :=
        m.mapSeenMasternodeBudgetProposals.insert (p.getHash hashes) (p.stamp (p.collateral hashes ctx)) } again
    unfold CBudgetProposal.collateral at fee again added ⊢
    simp only [fee, again, Bool.not_true, Bool.false_eq_true, if_false]
    rw [checkOrphanVotes_eq, added]
    exact ⟨_, Or.inr rfl, rfl⟩

theorem processFinalizedBudget_eq (m : CBudgetManager) (valid : (b.isValid hashes ctx).1 = true) :
    ∃ book, (book = m.proposalBook ∨ book = Ballot.retry (proposalRules hashes) ctx.getTime m.proposalBook) ∧
      m.processFinalizedBudget hashes ctx b = (m.withProposals book).withFinalized (Ballot.register (finalizedRules hashes)
        ctx.getTime m.finalizedBook (b.getHash hashes) (b.stamp (b.collateral hashes ctx))) := by
  obtain ⟨fee, _⟩ := CFinalizedBudget.isValid_eq hashes ctx b valid
  obtain ⟨_, again⟩ := CFinalizedBudget.isValid_eq hashes ctx (b.stamp (b.collateral hashes ctx))
    ((CFinalizedBudget.isValid_stamp hashes ctx b _).trans valid)
  rw [CFinalizedBudget.collateral_stamp, CFinalizedBudget.stamp_stamp] at again
  unfold processFinalizedBudget Ballot.register
  by_cases seen : (m.mapSeenFinalizedBudgets.lookup (b.getHash hashes)).isSome
  · have same : (m.finalizedBook.seenItems.lookup (b.getHash hashes)).isSome = true := seen
    rw [if_pos seen, if_pos same]
    exact ⟨_, Or.inl rfl, rfl⟩
  · have same : ¬(m.finalizedBook.seenItems.lookup (b.getHash hashes)).isSome = true := seen
    rw [if_neg seen, if_neg same]
    have added := addFinalizedBudget_eq hashes ctx { m with
      mapSeenFinalizedBudgets := m.mapSeenFinalizedBudgets.insert (b.getHash hashes) (b.stamp (b.collateral hashes ctx)) } again
    unfold CFinalizedBudget.collateral at fee again added ⊢
    simp only [fee, again, Bool.not_true, Bool.false_eq_true, if_false]
    rw [checkOrphanVotes_eq, added]
    exact ⟨_, Or.inr rfl, rfl⟩

variable (d : BudgetContext × Message) (messages : List (BudgetContext × Message))

def proposalOp : Ballot.Op uint256 CBudgetProposal CBudgetVote :=
  match d.2 with
  | .mprop p => .register d.1.getTime (p.getHash hashes) (p.received.stamp (p.received.collateral hashes d.1))
  | .mvote v => .cast d.1.getTime { v with fValid := true }
  | _ => .retry d.1.getTime

def finalizedOp : Ballot.Op uint256 CFinalizedBudget CFinalizedBudgetVote :=
  match d.2 with
  | .fbs b => .register d.1.getTime (b.getHash hashes) (b.received.stamp (b.received.collateral hashes d.1))
  | .fbvote v => .cast d.1.getTime { v with fValid := true }
  | _ => .retry d.1.getTime

def proposalVotes : List CBudgetVote :=
  messages.filterMap fun d => match d.2 with
    | .mvote v => some { v with fValid := true }
    | _ => none

def finalizedVotes : List CFinalizedBudgetVote :=
  messages.filterMap fun d => match d.2 with
    | .fbvote v => some { v with fValid := true }
    | _ => none

def Valid (countEnabled : Nat) (d : BudgetContext × Message) : Prop :=
  match d.2 with
  | .mprop p => (p.received.isValid hashes d.1 countEnabled).1 = true
  | .mvote v => CBudgetVote.checkSignature d.1 { v with fValid := true } = true
  | .fbs b => (b.received.isValid hashes d.1).1 = true
  | .fbvote v => CFinalizedBudgetVote.checkSignature d.1 { v with fValid := true } = true

/-- Valid messages to a synced node. Votes of one masternode on one item lie apart, from its delivery on no vote lies
more than an hour in the future, and no two of the hashes that are computed collide. -/
structure Admissible (countEnabled : Nat) (messages : List (BudgetContext × Message)) : Prop where
  synced : ∀ d ∈ messages, d.1.fLiteMode = false ∧ d.1.isBlockchainSynced = true ∧ d.1.isSynced = true
  valid : ∀ d ∈ messages, Valid hashes countEnabled d
  apart : ∀ v ∈ proposalVotes messages, ∀ w ∈ proposalVotes messages, v ≠ w → v.nProposalHash = w.nProposalHash →
    v.vin.prevout = w.vin.prevout → v.nTime + BUDGET_VOTE_UPDATE_MIN ≤ w.nTime ∨ w.nTime + BUDGET_VOTE_UPDATE_MIN ≤ v.nTime
  finalizedApart : ∀ v ∈ finalizedVotes messages, ∀ w ∈ finalizedVotes messages, v ≠ w → v.nBudgetHash = w.nBudgetHash →
    v.vin.prevout = w.vin.prevout → v.nTime + BUDGET_VOTE_UPDATE_MIN ≤ w.nTime ∨ w.nTime + BUDGET_VOTE_UPDATE_MIN ≤ v.nTime
  past : ∀ start d, start ++ [d] <+: messages → ∀ v ∈ proposalVotes (start ++ [d]), v.nTime ≤ d.1.getTime + 60 * 60
  finalizedPast : ∀ start d, start ++ [d] <+: messages → ∀ v ∈ finalizedVotes (start ++ [d]), v.nTime ≤ d.1.getTime + 60 * 60
  distinct : ∀ v ∈ proposalVotes messages, ∀ w ∈ proposalVotes messages, v.getHash hashes = w.getHash hashes →
    v.vin = w.vin ∧ v.nProposalHash = w.nProposalHash ∧ v.nVote = w.nVote ∧ v.nTime = w.nTime
  finalizedDistinct : ∀ v ∈ finalizedVotes messages, ∀ w ∈ finalizedVotes messages, v.getHash hashes = w.getHash hashes →
    v.vin = w.vin ∧ v.nBudgetHash = w.nBudgetHash ∧ v.nTime = w.nTime
  outpoints : ∀ v ∈ proposalVotes messages, ∀ w ∈ proposalVotes messages,
    hashes.outpoint v.vin.prevout = hashes.outpoint w.vin.prevout → v.vin.prevout = w.vin.prevout
  finalizedOutpoints : ∀ v ∈ finalizedVotes messages, ∀ w ∈ finalizedVotes messages,
    hashes.outpoint v.vin.prevout = hashes.outpoint w.vin.prevout → v.vin.prevout = w.vin.prevout

/-- Every proposal and every finalized budget that was delivered is accepted, and has for each masternode that voted on
it exactly the last of its votes. -/
def KeepsLastVotes (m : CBudgetManager) : Prop :=
  (∀ hash, Ballot.Registered (messages.map (proposalOp hashes)) hash → ∃ p, m.mapProposals.lookup hash = some p ∧
    ∀ k v, p.mapVotes.lookup k = some v ↔
      Ballot.Latest (proposalRules hashes) (messages.map (proposalOp hashes)) hash v ∧ hashes.outpoint v.vin.prevout = k) ∧
  ∀ hash, Ballot.Registered (messages.map (finalizedOp hashes)) hash → ∃ b, m.mapFinalizedBudgets.lookup hash = some b ∧
    ∀ k v, b.mapVotes.lookup k = some v ↔
      Ballot.Latest (finalizedRules hashes) (messages.map (finalizedOp hashes)) hash v ∧ hashes.outpoint v.vin.prevout = k

/-- Of the votes delivered before their proposal or finalized budget, each that is the last of its masternode is the
last new vote on it before it is delivered. -/
def LastVotesWait : Prop :=
  (∀ hash, Ballot.Registered (messages.map (proposalOp hashes)) hash →
    ∀ v ∈ Ballot.votesBefore (proposalRules hashes) hash (messages.map (proposalOp hashes)),
      Ballot.Latest (proposalRules hashes) (messages.map (proposalOp hashes)) hash v →
        Ballot.waiting (proposalRules hashes) hash (messages.map (proposalOp hashes)) = some v) ∧
  ∀ hash, Ballot.Registered (messages.map (finalizedOp hashes)) hash →
    ∀ v ∈ Ballot.votesBefore (finalizedRules hashes) hash (messages.map (finalizedOp hashes)),
      Ballot.Latest (finalizedRules hashes) (messages.map (finalizedOp hashes)) hash v →
        Ballot.waiting (finalizedRules hashes) hash (messages.map (finalizedOp hashes)) = some v

theorem delivered_proposalOp : Ballot.delivered (messages.map (proposalOp hashes)) = proposalVotes messages := by
  unfold Ballot.delivered proposalVotes
  rw [List.filterMap_map]
  congr 1
  funext d
  obtain ⟨ctx, message⟩ := d
  cases message <;> rfl

theorem delivered_finalizedOp : Ballot.delivered (messages.map (finalizedOp hashes)) = finalizedVotes messages := by
  unfold Ballot.delivered finalizedVotes
  rw [List.filterMap_map]
  congr 1
  funext d
  obtain ⟨ctx, message⟩ := d
  cases message <;> rfl

theorem proposalOp_now : (proposalOp hashes d).now = d.1.getTime := by
  obtain ⟨ctx, message⟩ := d
  cases message <;> rfl

theorem finalizedOp_now : (finalizedOp hashes d).now = d.1.getTime := by
  obtain ⟨ctx, message⟩ := d
  cases message <;> rfl

theorem prefix_of_map {A B : Type} {f : A → B} {l : List A} {start : List B} {op : B} (sub : start ++ [op] <+: l.map f) :
    ∃ start' d, start' ++ [d] <+: l ∧ start'.map f = start ∧ f d = op := by
  obtain ⟨l', sub', same⟩ := List.prefix_map_iff.mp sub
  obtain ⟨start', last, rfl, starts, ends⟩ := List.map_eq_append_iff.mp same.symm
  obtain ⟨d, rfl, rfl⟩ := List.map_eq_singleton_iff.mp ends
  exact ⟨start', d, sub', starts, rfl⟩

variable {hashes} {countEnabled : Nat} {messages : List (BudgetContext × Message)}

namespace Admissible

theorem fair (admissible : Admissible hashes countEnabled messages) :
    Ballot.Fair (proposalRules hashes) (messages.map (proposalOp hashes)) where
  holds _ _ := rfl
  positive := by
    show 0 < BUDGET_VOTE_UPDATE_MIN
    decide
  bare now i p member := by
    obtain ⟨⟨ctx, message⟩, _, same⟩ := List.mem_map.mp member
    cases message with
    | mprop b =>
      obtain ⟨_, _, rfl⟩ := Ballot.Op.register.inj same
      rfl
    | mvote _ | fbs _ | fbvote _ => cases same
  hashes := by
    rw [delivered_proposalOp]
    intro v hv w hw same
    obtain ⟨vin, item, _, time⟩ := admissible.distinct v hv w hw same
    by_contra other
    have apart := admissible.apart v hv w hw other item (congrArg CTxIn.prevout vin)
    unfold BUDGET_VOTE_UPDATE_MIN at apart
    omega
  apart := by
    rw [delivered_proposalOp]
    exact fun v hv w hw other item voter => admissible.apart v hv w hw other item (admissible.outpoints v hv w hw voter)
  past := by
    intro before op sub
    obtain ⟨start, d, sub', rfl, rfl⟩ := prefix_of_map sub
    rw [← List.map_singleton, ← List.map_append, delivered_proposalOp, proposalOp_now]
    exact admissible.past start d sub'

theorem finalizedFair (admissible : Admissible hashes countEnabled messages) :
    Ballot.Fair (finalizedRules hashes) (messages.map (finalizedOp hashes)) where
  holds _ _ := rfl
  positive := by
    show 0 < BUDGET_VOTE_UPDATE_MIN
    decide
  bare now i p member := by
    obtain ⟨⟨ctx, message⟩, _, same⟩ := List.mem_map.mp member
    cases message with
    | fbs b =>
      obtain ⟨_, _, rfl⟩ := Ballot.Op.register.inj same
      rfl
    | mprop _ | mvote _ | fbvote _ => cases same
  hashes := by
    rw [delivered_finalizedOp]
    intro v hv w hw same
    obtain ⟨vin, item, time⟩ := admissible.finalizedDistinct v hv w hw same
    by_contra other
    have apart := admissible.finalizedApart v hv w hw other item (congrArg CTxIn.prevout vin)
    unfold BUDGET_VOTE_UPDATE_MIN at apart
    omega
  apart := by
    rw [delivered_finalizedOp]
    exact fun v hv w hw other item voter =>
      admissible.finalizedApart v hv w hw other item (admissible.finalizedOutpoints v hv w hw voter)
  past := by
    intro before op sub
    obtain ⟨start, d, sub', rfl, rfl⟩ := prefix_of_map sub
    rw [← List.map_singleton, ← List.map_append, delivered_finalizedOp, finalizedOp_now]
    exact admissible.finalizedPast start d sub'

end Admissible

theorem isValid_received (p : CBudgetProposal) (n n' : Nat) :
    p.received.isValid hashes ctx n = p.received.isValid hashes ctx n' := by
  have none_ : p.received.getNays - p.received.getYeas = 0 := rfl
  unfold CBudgetProposal.isValid
  have few : ∀ k : Nat, ¬(0 : Int) > (k / 10 : Nat) := fun k => by omega
  rw [none_, if_neg (few n), if_neg (few n')]

theorem books_spec_step {d : BudgetContext × Message}
    (synced : d.1.fLiteMode = false ∧ d.1.isBlockchainSynced = true ∧ d.1.isSynced = true)
    (valid : Valid hashes countEnabled d)
    (fair : Ballot.Fair (proposalRules hashes) ((messages ++ [d]).map (proposalOp hashes)))
    (finalizedFair : Ballot.Fair (finalizedRules hashes) ((messages ++ [d]).map (finalizedOp hashes)))
    (spec : Ballot.Spec (proposalRules hashes) m.proposalBook (messages.map (proposalOp hashes)))
    (finalizedSpec : Ballot.Spec (finalizedRules hashes) m.finalizedBook (messages.map (finalizedOp hashes))) :
    Ballot.Spec (proposalRules hashes) (m.processMessage hashes d.1 d.2).proposalBook
      ((messages ++ [d]).map (proposalOp hashes)) ∧
    Ballot.Spec (finalizedRules hashes) (m.processMessage hashes d.1 d.2).finalizedBook
      ((messages ++ [d]).map (finalizedOp hashes)) := by
  obtain ⟨ctx, message⟩ := d
  obtain ⟨lite, chain, full⟩ := synced
  rw [List.map_append, List.map_singleton] at fair finalizedFair ⊢
  rw [List.map_append, List.map_singleton]
  unfold processMessage
  simp only at lite chain full
  rw [if_neg (by simp [lite]), if_neg (by simp [chain])]
  cases message with
  | mprop p =>
    have valid' : (p.received.isValid hashes ctx m.countEnabled).1 = true := by
      rw [isValid_received ctx p m.countEnabled countEnabled]
      exact valid
    obtain ⟨book, either, processed⟩ := processProposal_eq hashes ctx m valid'
    simp only [processed]
    refine ⟨spec.register fair, ?_⟩
    obtain rfl | rfl := either
    · exact finalizedSpec.idle ctx.getTime
    · rw [finalizedSpec.retry_eq]
      exact finalizedSpec.idle ctx.getTime
  | mvote v =>
    simp only [processVote_eq hashes ctx m full valid]
    exact ⟨spec.cast fair, finalizedSpec.idle ctx.getTime⟩
  | fbs b =>
    obtain ⟨book, either, processed⟩ := processFinalizedBudget_eq hashes ctx m valid
    simp only [processed]
    refine ⟨?_, finalizedSpec.register finalizedFair⟩
    obtain rfl | rfl := either
    · exact spec.idle ctx.getTime
    · rw [spec.retry_eq]
      exact spec.idle ctx.getTime
  | fbvote v =>
    simp only [processFinalizedVote_eq hashes ctx m full valid]
    exact ⟨spec.idle ctx.getTime, finalizedSpec.cast finalizedFair⟩

theorem Admissible.init {d : BudgetContext × Message} (admissible : Admissible hashes countEnabled (messages ++ [d])) :
    Admissible hashes countEnabled messages := by
  have sub : ∀ v ∈ proposalVotes messages, v ∈ proposalVotes (messages ++ [d]) := by
    intro v member
    unfold proposalVotes at member ⊢
    rw [List.filterMap_append]
    exact List.mem_append_left _ member
  have finalizedSub : ∀ v ∈ finalizedVotes messages, v ∈ finalizedVotes (messages ++ [d]) := by
    intro v member
    unfold finalizedVotes at member ⊢
    rw [List.filterMap_append]
    exact List.mem_append_left _ member
  exact {
    synced := fun e member => admissible.synced e (List.mem_append_left _ member)
    valid := fun e member => admissible.valid e (List.mem_append_left _ member)
    apart := fun v hv w hw => admissible.apart v (sub v hv) w (sub w hw)
    finalizedApart := fun v hv w hw => admissible.finalizedApart v (finalizedSub v hv) w (finalizedSub w hw)
    past := fun start e sub' => admissible.past start e (sub'.trans (List.prefix_append _ _))
    finalizedPast := fun start e sub' => admissible.finalizedPast start e (sub'.trans (List.prefix_append _ _))
    distinct := fun v hv w hw => admissible.distinct v (sub v hv) w (sub w hw)
    finalizedDistinct := fun v hv w hw => admissible.finalizedDistinct v (finalizedSub v hv) w (finalizedSub w hw)
    outpoints := fun v hv w hw => admissible.outpoints v (sub v hv) w (sub w hw)
    finalizedOutpoints := fun v hv w hw => admissible.finalizedOutpoints v (finalizedSub v hv) w (finalizedSub w hw) }

theorem books_spec (admissible : Admissible hashes countEnabled messages) :
    Ballot.Spec (proposalRules hashes) (run hashes { countEnabled := countEnabled } messages).proposalBook
      (messages.map (proposalOp hashes)) ∧
    Ballot.Spec (finalizedRules hashes) (run hashes { countEnabled := countEnabled } messages).finalizedBook
      (messages.map (finalizedOp hashes)) := by
  induction messages using List.reverseRecOn with
  | nil => exact ⟨Ballot.Spec.start _, Ballot.Spec.start _⟩
  | append_singleton messages d ih =>
    obtain ⟨spec, finalizedSpec⟩ := ih admissible.init
    have last : d ∈ messages ++ [d] := List.mem_append_right _ List.mem_cons_self
    unfold run
    rw [List.foldl_append]
    exact books_spec_step (admissible.synced d last) (admissible.valid d last) admissible.fair admissible.finalizedFair
      spec finalizedSpec

def plainHashes : BudgetHashes where
  proposal _ _ _ _ _ _ := 7
  finalized _ _ _ := 8
  vote vin _ _ _ := vin.prevout.hash
  finalizedVote vin _ _ := vin.prevout.hash
  outpoint o := o.hash

def feeContext : BudgetContext where
  network := .testnet
  getTime := 1000
  tipHeight := some 20
  getTransaction _ := some ({ hash := 9, vin := [], vout := [{ nValue := PROPOSAL_FEE_TX, scriptPubKey := BudgetContext.findScript 7 }] }, 1)
  activeBlock _ := some (10, 500)
  find _ := true
  checkVote _ := true
  checkFinalizedVote _ := true

def smallProposal : CBudgetProposal where
  nBlockStart := 144
  nBlockEnd := 288
  nAmount := 10 * COIN
  address := [0x51]
  nFeeTXHash := 9

def yesOf (masternode : uint256) : CBudgetVote where
  vin := { prevout := ⟨masternode, 0⟩ }
  nProposalHash := 7
  nVote := VOTE_YES
  nTime := 1000

theorem yes_votes_admissible
    (known : ∀ d ∈ messages, d.1 = feeContext ∧ (d.2 = .mprop smallProposal ∨ d.2 = .mvote (yesOf 1) ∨ d.2 = .mvote (yesOf 2))) :
    Admissible plainHashes 0 messages := by
  have votes : ∀ v ∈ proposalVotes messages, v = yesOf 1 ∨ v = yesOf 2 := by
    intro v member
    obtain ⟨⟨ctx, message⟩, listed, same⟩ := List.mem_filterMap.mp member
    obtain ⟨_, rfl | rfl | rfl⟩ := known _ listed
    · cases same
    · exact Or.inl (Option.some.inj same).symm
    · exact Or.inr (Option.some.inj same).symm
  have noFinalized : ∀ v, v ∉ finalizedVotes messages := by
    intro v member
    obtain ⟨⟨ctx, message⟩, listed, same⟩ := List.mem_filterMap.mp member
    obtain ⟨_, rfl | rfl | rfl⟩ := known _ listed <;> cases same
  have injective : ∀ v ∈ proposalVotes messages, ∀ w ∈ proposalVotes messages,
      v.vin.prevout.hash = w.vin.prevout.hash → v = w := by
    intro v hv w hw same
    obtain rfl | rfl := votes v hv <;> obtain rfl | rfl := votes w hw
    · rfl
    · exact absurd same (by decide)
    · exact absurd same (by decide)
    · rfl
  constructor
  case synced =>
    rintro ⟨ctx, message⟩ member
    obtain ⟨same, _⟩ := known _ member
    simp only at same
    subst same
    exact ⟨rfl, rfl, rfl⟩
  case valid =>
    rintro ⟨ctx, message⟩ member
    obtain ⟨same, kind⟩ := known _ member
    simp only at same kind
    subst same
    obtain rfl | rfl | rfl := kind
    · show (smallProposal.received.isValid plainHashes feeContext 0).1 = true
      decide
    · rfl
    · rfl
  case apart =>
    intro v hv w hw other _ voter
    exact absurd (injective v hv w hw (congrArg COutPoint.hash voter)) other
  case past =>
    intro start d sub v member
    have inside : v ∈ proposalVotes messages := by
      obtain ⟨e, listed, same⟩ := List.mem_filterMap.mp member
      exact List.mem_filterMap.mpr ⟨e, sub.subset listed, same⟩
    obtain ⟨same, _⟩ := known d (sub.subset (List.mem_append_right _ List.mem_cons_self))
    rw [same]
    obtain rfl | rfl := votes v inside <;> decide
  case distinct =>
    intro v hv w hw same
    obtain rfl := injective v hv w hw same
    exact ⟨rfl, rfl, rfl, rfl⟩
  case outpoints =>
    intro v hv w hw same
    rw [injective v hv w hw same]
  case finalizedApart | finalizedDistinct | finalizedOutpoints => exact fun v hv => absurd hv (noFinalized v)
  case finalizedPast =>
    intro start d sub v member
    obtain ⟨e, listed, same⟩ := List.mem_filterMap.mp member
    exact absurd (List.mem_filterMap.mpr ⟨e, sub.subset listed, same⟩) (noFinalized v)

/-- The votes that the proposals and finalized budgets end with are the last ones of all masternodes exactly when no
last vote that came early was displaced by a later early one. -/
theorem last_votes_kept_iff (hashes : BudgetHashes) (countEnabled : Nat) (messages : List (BudgetContext × Message))
    (admissible : Admissible hashes countEnabled messages) :
    KeepsLastVotes hashes messages (run hashes { countEnabled := countEnabled } messages) ↔ LastVotesWait hashes messages := by
  obtain ⟨spec, finalizedSpec⟩ := books_spec admissible
  exact and_congr (Ballot.last_votes_iff admissible.fair spec) (Ballot.last_votes_iff admissible.finalizedFair finalizedSpec)

theorem votes_after_proposal_kept :
    KeepsLastVotes plainHashes
      [(feeContext, .mprop smallProposal), (feeContext, .mvote (yesOf 1)), (feeContext, .mvote (yesOf 2))]
      (run plainHashes {}
        [(feeContext, .mprop smallProposal), (feeContext, .mvote (yesOf 1)), (feeContext, .mvote (yesOf 2))]) := by
  refine (last_votes_kept_iff plainHashes 0 _ (yes_votes_admissible ?_)).mpr ⟨?_, ?_⟩
  · simp
  · intro hash registered v early
    obtain rfl : hash = 7 := by simpa [Ballot.Registered, proposalOp, Ballot.Op.item?, plainHashes, CBudgetProposal.getHash] using registered
    exact absurd early (by simp [Ballot.votesBefore, proposalOp, Ballot.Op.item?, plainHashes, CBudgetProposal.getHash, Ballot.delivered])
  · intro hash registered
    exact absurd registered (by simp [Ballot.Registered, finalizedOp, Ballot.Op.item?])

/-- Two votes before their proposal: the second takes the place of the first, which is lost. -/
theorem first_early_vote_lost :
    Admissible plainHashes 0
      [(feeContext, .mvote (yesOf 1)), (feeContext, .mvote (yesOf 2)), (feeContext, .mprop smallProposal)] ∧
    ¬KeepsLastVotes plainHashes
      [(feeContext, .mvote (yesOf 1)), (feeContext, .mvote (yesOf 2)), (feeContext, .mprop smallProposal)]
      (run plainHashes {}
        [(feeContext, .mvote (yesOf 1)), (feeContext, .mvote (yesOf 2)), (feeContext, .mprop smallProposal)]) := by
  refine ⟨yes_votes_admissible (by simp), ?_⟩
  rintro ⟨kept, _⟩
  obtain ⟨p, at_, last⟩ := kept 7 (by decide)
  have lost : ((run plainHashes {} [(feeContext, .mvote (yesOf 1)), (feeContext, .mvote (yesOf 2)),
      (feeContext, .mprop smallProposal)]).mapProposals.lookup 7).map (fun p => p.mapVotes.lookup 1) = some none := by
    decide
  rw [at_] at lost
  have present := (last 1 (yesOf 1)).mpr ⟨?_, rfl⟩
  · rw [Option.map_some, present] at lost
    cases lost
  · refine ⟨by decide, rfl, ?_⟩
    decide

end CBudgetManager

end SchillingCoin
