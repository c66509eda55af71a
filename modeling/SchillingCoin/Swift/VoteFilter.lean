import SchillingCoin.Swift.Bookkeeping

/-!
Votes that take the place of others. A vote is remembered before it is checked, under a sum of the outpoint of its masternode and the hash of
the transaction, so a refused vote stands for the good one, and votes of different masternodes for different transactions may have one sum.
-/

namespace SchillingCoin

namespace SwiftTX

variable {s : SwiftTX} {ctx : SwiftContext} {vote : CConsensusVote}

def votesFor (s : SwiftTX) (h : uint256) : List CConsensusVote := (s.lockAt h).elim [] CTransactionLock.vecConsensusVotes

def Remembers (s : SwiftTX) (ctx : SwiftContext) (vote : CConsensusVote) : Prop :=
  ignores ctx = false ∧ s.mapTxLockVote.lookup vote.getHash = none

def CountsVote (s : SwiftTX) (ctx : SwiftContext) (vote : CConsensusVote) : Prop :=
  (s.step (.txlvote ctx vote)).votesFor vote.txHash = s.votesFor vote.txHash ++ [vote]

/-- Once it is delivered, a later good vote of the masternode for the transaction leaves the same votes in the lock as without it. -/
def Unnoticed (s : SwiftTX) (ctx : SwiftContext) (bad : CConsensusVote) : Prop :=
  ∀ (between : List Op) ctx' good, good.vinMasternode.prevout = bad.vinMasternode.prevout → good.txHash = bad.txHash →
    voteRefused ctx' good = false →
    ((between.foldl step (s.step (.txlvote ctx bad))).step (.txlvote ctx' good)).votesFor good.txHash =
      ((between.foldl step s).step (.txlvote ctx' good)).votesFor good.txHash

theorem step_forgotten (forgotten : ¬s.Remembers ctx vote) : s.step (.txlvote ctx vote) = s := by
  rw [step]
  split
  · rfl
  next handled =>
  have seen : (s.mapTxLockVote.lookup vote.getHash).isSome := by
    rw [Option.isSome_iff_ne_none]
    exact fun fresh => forgotten ⟨by simpa using handled, fresh⟩
  rw [processVote, if_pos seen]

theorem processVote_refused (fresh : s.mapTxLockVote.lookup vote.getHash = none) (refused : voteRefused ctx vote = true) :
    (s.processVote ctx vote).2 = { s with mapTxLockVote := s.mapTxLockVote.insert vote.getHash vote } := by
  unfold processVote processConsensusVote
  rw [fresh, refused]
  rfl

theorem processVote_passed (fresh : s.mapTxLockVote.lookup vote.getHash = none) (passed : voteRefused ctx vote = false) :
    (s.processVote ctx vote).2.mapTxLockVote = s.mapTxLockVote.insert vote.getHash vote ∧
      ∀ h, (s.processVote ctx vote).2.lockAt h = (s.withVote ctx vote).lockAt h := by
  have processed : s.processVote ctx vote = limitUnknownVotes ctx
      (if (s.votedLock ctx vote).countSignatures ≥ SWIFTTX_SIGNATURES_REQUIRED then (s.withVote ctx vote).completeLock ctx vote.txHash
        else s.withVote ctx vote) vote := by
    unfold processVote processConsensusVote
    rw [fresh, passed]
    rfl
  rw [processed]
  obtain ⟨unknown, eq⟩ := limitUnknownVotes_maps ctx
    (if (s.votedLock ctx vote).countSignatures ≥ SWIFTTX_SIGNATURES_REQUIRED then (s.withVote ctx vote).completeLock ctx vote.txHash
      else s.withVote ctx vote) vote
  rw [eq]
  split
  · have complete := completeLock_spec ctx (s.withVote ctx vote) vote.txHash
    exact ⟨complete.2.2.1, complete.2.2.2.1⟩
  · exact ⟨rfl, fun _ => rfl⟩

theorem step_remembered (remembers : s.Remembers ctx vote) :
    (s.step (.txlvote ctx vote)).mapTxLockVote = s.mapTxLockVote.insert vote.getHash vote := by
  obtain ⟨handled, fresh⟩ := remembers
  rw [step, handled, if_neg Bool.false_ne_true]
  cases refused : voteRefused ctx vote with
  | true => rw [processVote_refused fresh refused]
  | false => exact (processVote_passed fresh refused).1

theorem step_refused (refused : voteRefused ctx vote = true) (h : uint256) : (s.step (.txlvote ctx vote)).lockAt h = s.lockAt h := by
  by_cases remembers : s.Remembers ctx vote
  · obtain ⟨handled, fresh⟩ := remembers
    rw [step, handled, if_neg Bool.false_ne_true, processVote_refused fresh refused]
    rfl
  · rw [step_forgotten remembers]

theorem votesFor_withVote (ctx : SwiftContext) (s : SwiftTX) (vote : CConsensusVote) :
    (s.withVote ctx vote).votesFor vote.txHash = s.votesFor vote.txHash ++ [vote] := by
  have voted := votedLock_votes ctx s vote
  have held : (s.withVote ctx vote).lockAt vote.txHash = some (s.votedLock ctx vote).body := by
    rw [lockAt, withVote_lookup, if_pos rfl, Option.map_some]
  rw [votesFor, held]
  exact voted

theorem countsVote_iff : s.CountsVote ctx vote ↔ s.Remembers ctx vote ∧ voteRefused ctx vote = false := by
  have longer : s.votesFor vote.txHash ≠ s.votesFor vote.txHash ++ [vote] := by
    intro same
    have lengths := congrArg List.length same
    rw [List.length_append, List.length_singleton] at lengths
    omega
  unfold CountsVote
  constructor
  · intro counts
    by_cases remembers : s.Remembers ctx vote
    · refine ⟨remembers, ?_⟩
      by_contra refused
      rw [votesFor, step_refused (by simpa using refused)] at counts
      exact longer counts
    · rw [step_forgotten remembers] at counts
      exact absurd counts longer
  · rintro ⟨⟨handled, fresh⟩, passed⟩
    have locks := (processVote_passed fresh passed).2 vote.txHash
    rw [step, handled, if_neg Bool.false_ne_true, votesFor, locks]
    exact votesFor_withVote ctx s vote

def trusting (ctx : SwiftContext) : SwiftContext := { ctx with getMasternodeRank := fun _ _ => 1, checkSignature := fun _ => true }

/-- A refused vote goes unnoticed exactly when it is not remembered. -/
theorem votes_suppressed_iff (s : SwiftTX) (ctx : SwiftContext) (first : CConsensusVote) :
    (voteRefused ctx first = true → (s.Unnoticed ctx first ↔ ¬s.Remembers ctx first)) ∧
      ∀ ctx' second, second.vinMasternode.prevout ≠ first.vinMasternode.prevout ∨ second.txHash ≠ first.txHash → s.CountsVote ctx' second →
        ((s.step (.txlvote ctx first)).CountsVote ctx' second ↔ ¬s.Remembers ctx first ∨ first.getHash ≠ second.getHash) := by
  constructor
  · intro refused
    constructor
    · intro unnoticed remembers
      have lost := unnoticed [] (trusting ctx) { first with vchSig := 0 :: first.vchSig } rfl rfl rfl
      have counted : s.CountsVote (trusting ctx) { first with vchSig := 0 :: first.vchSig } := countsVote_iff.mpr ⟨remembers, rfl⟩
      have seen : ¬(s.step (.txlvote ctx first)).Remembers (trusting ctx) { first with vchSig := 0 :: first.vchSig } := by
        rintro ⟨_, fresh⟩
        have held : (s.step (.txlvote ctx first)).mapTxLockVote.lookup first.getHash = some first := by
          rw [step_remembered remembers, StdMap.lookup_insert_ite, if_pos rfl]
        cases held.symm.trans fresh
      rw [List.foldl_nil, List.foldl_nil, step_forgotten seen, counted, votesFor, step_refused refused] at lost
      have lengths := congrArg List.length lost
      rw [List.length_append, List.length_singleton, votesFor] at lengths
      dsimp only at lengths
      omega
    · intro forgotten between ctx' good _ _ _
      rw [step_forgotten forgotten]
  · intro ctx' second _ counts
    obtain ⟨⟨handled, fresh⟩, passed⟩ := countsVote_iff.mp counts
    rw [countsVote_iff]
    by_cases remembers : s.Remembers ctx first
    · have after := StdMap.lookup_insert_ite s.mapTxLockVote first.getHash second.getHash first
      rw [← step_remembered remembers] at after
      by_cases same : second.getHash = first.getHash
      · rw [if_pos same] at after
        refine iff_of_false (fun counted => ?_) fun unseen => unseen.elim (fun forgotten => forgotten remembers) fun other => other same.symm
        rw [counted.1.2] at after
        cases after
      · rw [if_neg same, fresh] at after
        exact iff_of_true ⟨⟨handled, after⟩, passed⟩ (Or.inr (Ne.symm same))
    · rw [step_forgotten remembers]
      exact iff_of_true ⟨⟨handled, fresh⟩, passed⟩ (Or.inl remembers)

def signatureNode : SwiftContext := { rejectingNode with checkSignature := fun v => v.vchSig == [1] }

def signedVoteOf (masternode txHash : uint256) (vchSig : List UInt8) : CConsensusVote :=
  { vinMasternode := { prevout := ⟨masternode, 0⟩ }, txHash, nBlockHeight := 94, vchSig }

/-- A made up vote silences the masternode it names, and the vote of masternode 1 for transaction 8 silences that of masternode 2 for 7. -/
theorem good_votes_suppressed :
    voteRefused signatureNode (signedVoteOf 1 7 [0]) = true ∧ ¬SwiftTX.Unnoticed {} signatureNode (signedVoteOf 1 7 [0]) ∧
      SwiftTX.CountsVote {} signatureNode (signedVoteOf 1 7 [1]) ∧
      ¬(SwiftTX.step {} (.txlvote signatureNode (signedVoteOf 1 7 [0]))).CountsVote signatureNode (signedVoteOf 1 7 [1]) ∧
      SwiftTX.CountsVote {} signatureNode (signedVoteOf 1 8 [1]) ∧ SwiftTX.CountsVote {} signatureNode (signedVoteOf 2 7 [1]) ∧
      ¬(SwiftTX.step {} (.txlvote signatureNode (signedVoteOf 1 8 [1]))).CountsVote signatureNode (signedVoteOf 2 7 [1]) := by
  refine ⟨by rfl, fun unnoticed => ?_, countsVote_iff.mpr ⟨⟨by rfl, by rfl⟩, by rfl⟩, fun counts => ?_, countsVote_iff.mpr ⟨⟨by rfl, by rfl⟩, by rfl⟩,
    countsVote_iff.mpr ⟨⟨by rfl, by rfl⟩, by rfl⟩, fun counts => ?_⟩
  · have same := unnoticed [] signatureNode (signedVoteOf 1 7 [1]) rfl rfl (by rfl)
    revert same
    decide
  · have fresh := (countsVote_iff.mp counts).1.2
    revert fresh
    decide
  · have fresh := (countsVote_iff.mp counts).1.2
    revert fresh
    decide

end SwiftTX

end SchillingCoin
