import SchillingCoin.Masternode.Votes

/-!
The stored payment votes and the tallies of the heights, under `AddWinningMasternode` and
`CleanPaymentList` in any order.
-/

namespace SchillingCoin

namespace CMasternodeBlockPayees

def votesOf (b : CMasternodeBlockPayees) (p : CScript) : Int :=
  (b.vecPayments.find? fun c => c.scriptPubKey = p).elim 0 CMasternodePayee.nVotes

def PayeesOnce (b : CMasternodeBlockPayees) : Prop := (b.vecPayments.map CMasternodePayee.scriptPubKey).Nodup

theorem addVotes_payees (q : CScript) (n : Int) (l : List CMasternodePayee) :
    (addVotes q n l).map CMasternodePayee.scriptPubKey =
      l.map CMasternodePayee.scriptPubKey ++ if q ∈ l.map CMasternodePayee.scriptPubKey then [] else [q] := by
  induction l with
  | nil => rfl
  | cons c l ih =>
    unfold addVotes
    by_cases here : c.scriptPubKey = q
    · simp [here]
    · have other : ¬q = c.scriptPubKey := fun same => here same.symm
      rw [if_neg here, List.map_cons, ih]
      simp [other]

theorem PayeesOnce.addPayee {b : CMasternodeBlockPayees} (once : b.PayeesOnce) (q : CScript) (n : Int) :
    (b.addPayee q n).PayeesOnce := by
  unfold PayeesOnce CMasternodeBlockPayees.addPayee
  rw [addVotes_payees]
  split
  · rw [List.append_nil]
    exact once
  · rename_i absent
    exact List.Nodup.append once (List.nodup_singleton q) (by simpa using absent)

theorem votesOf_eq_sum {b : CMasternodeBlockPayees} (once : b.PayeesOnce) (p : CScript) :
    b.votesOf p = ((b.vecPayments.filter fun c => c.scriptPubKey = p).map CMasternodePayee.nVotes).sum := by
  unfold votesOf
  unfold PayeesOnce at once
  generalize b.vecPayments = l at once
  induction l with
  | nil => rfl
  | cons c l ih =>
    obtain ⟨absent, rest⟩ := List.nodup_cons.mp once
    by_cases here : c.scriptPubKey = p
    · have none_ : (l.filter fun c => c.scriptPubKey = p) = [] := by
        rw [List.filter_eq_nil_iff]
        intro d member same
        exact absent (List.mem_map.mpr ⟨d, member, by simpa [here] using same⟩)
      simp [here, none_]
    · rw [List.find?_cons_of_neg (by simpa using here), List.filter_cons_of_neg (by simpa using here)]
      exact ih rest

end CMasternodeBlockPayees

namespace CMasternodePayments

inductive TallyOp where
  | addWinningMasternode (ctx : MasternodeContext) (winnerIn : CMasternodePaymentWinner)
  | cleanPaymentList (ctx : MasternodeContext)

def tallyStep (hash : CScript → Int → COutPoint → uint256) (s : CMasternodePayments) : TallyOp → CMasternodePayments
  | .addWinningMasternode ctx winnerIn => (addWinningMasternode hash ctx s winnerIn).2
  | .cleanPaymentList ctx => cleanPaymentList ctx s

structure Agree (s : CMasternodePayments) : Prop where
  tallied : s.Tallied
  once : ∀ h b, s.mapMasternodeBlocks.lookup h = some b → b.PayeesOnce
  voted : ∀ h b, s.mapMasternodeBlocks.lookup h = some b →
    ∃ k w, s.mapMasternodePayeeVotes.lookup k = some w ∧ w.nBlockHeight = h

theorem agree_empty : Agree {} where
  tallied h p := by simp [tally]
  once h b found := by simp at found
  voted h b found := by simp at found

theorem addWinningMasternode_agree {hash : CScript → Int → COutPoint → uint256} {winner : CMasternodePaymentWinner}
    (agree : s.Agree) : (addWinningMasternode hash ctx s winner).2.Agree := by
  rcases addWinningMasternode_cases hash ctx s winner with same | ⟨absent, votes, blocks⟩
  · rw [same]
    exact agree
  · refine ⟨tallied_insert agree.tallied absent votes blocks, fun h b found => ?_, fun h b found => ?_⟩
    · rw [blocks, StdMap.lookup_insert_ite] at found
      split at found
      · obtain rfl := Option.some.inj found
        cases before : s.mapMasternodeBlocks.lookup winner.nBlockHeight with
        | none =>
          have fresh : CMasternodeBlockPayees.PayeesOnce ⟨winner.nBlockHeight, []⟩ := List.nodup_nil
          exact fresh.addPayee _ _
        | some old => exact (agree.once _ old before).addPayee _ _
      · exact agree.once h b found
    · rw [blocks, StdMap.lookup_insert_ite] at found
      split at found
      · rename_i height
        refine ⟨winner.getHash hash, winner, ?_, height.symm⟩
        rw [votes, StdMap.lookup_insert_ite, if_pos rfl]
      · obtain ⟨k, w, stored, height⟩ := agree.voted h b found
        have other : k ≠ winner.getHash hash := by
          rintro rfl
          rw [absent] at stored
          cases stored
        refine ⟨k, w, ?_, height⟩
        rw [votes, StdMap.lookup_insert_ite, if_neg other, stored]

theorem cleanPaymentList_agree (agree : s.Agree) : (cleanPaymentList ctx s).Agree := by
  have tallied : (cleanPaymentList ctx s).Tallied := cleanPaymentList_tallied agree.tallied
  unfold cleanPaymentList at tallied ⊢
  cases height : ctx.tipHeight with
  | none => exact agree
  | some nHeight =>
    simp only [height] at tallied ⊢
    have slots := fun h => cleanLoop_slot ctx nHeight h s.mapMasternodePayeeVotes.entries s
    refine ⟨tallied, ?_, ?_⟩
    · intro h b found
      rw [(slots h).1] at found
      split at found
      · cases found
      · exact agree.once h b found
    · intro h b found
      rw [(slots h).1] at found
      split at found
      · cases found
      · rename_i stays
        obtain ⟨k, w, stored, height⟩ := agree.voted h b found
        refine ⟨k, w, ?_, height⟩
        rw [(slots h).2 k, if_neg, stored]
        -- A removed vote under this key would be this vote, and its height would be gone.
        intro gone
        obtain ⟨e, member, removed⟩ := List.any_eq_true.mp gone
        obtain ⟨old, key⟩ := Bool.and_eq_true_iff.mp removed
        have same : e.2 = w := by
          have entry := StdMap.mem_entries_iff.mp member
          rw [eq_of_beq key, stored] at entry
          exact (Option.some.inj entry).symm
        rw [same] at old
        exact stays (List.any_eq_true.mpr ⟨e, member, by simp [same, old, height]⟩)

theorem tallyStep_agree {hash : CScript → Int → COutPoint → uint256} (agree : s.Agree) (op : TallyOp) :
    (tallyStep hash s op).Agree := by
  cases op with
  | addWinningMasternode ctx winnerIn => exact addWinningMasternode_agree agree
  | cleanPaymentList ctx => exact cleanPaymentList_agree agree

theorem mem_votesAt {s : CMasternodePayments} :
    w ∈ s.votesAt h ↔ (∃ k, s.mapMasternodePayeeVotes.lookup k = some w) ∧ w.nBlockHeight = h := by
  simp only [votesAt, List.mem_filter, List.mem_map, decide_eq_true_eq]
  constructor
  · rintro ⟨⟨e, member, rfl⟩, height⟩
    exact ⟨⟨e.1, StdMap.mem_entries_iff.mp member⟩, height⟩
  · rintro ⟨⟨k, stored⟩, height⟩
    exact ⟨⟨⟨k, w⟩, StdMap.mem_entries_iff.mpr stored, rfl⟩, height⟩

/-- After every sequence of calls a height has a tally if and only if it has a stored vote, and the
votes of a payee in it are the stored votes for the height and the payee. -/
theorem tallies_agree_with_votes (hash : CScript → Int → COutPoint → uint256) (ops : List TallyOp) (h : Int) (p : CScript) :
    ((ops.foldl (tallyStep hash) {}).mapMasternodeBlocks.lookup h).map (fun b => b.votesOf p) =
      if (ops.foldl (tallyStep hash) {}).votesAt h = [] then none
      else some ((((ops.foldl (tallyStep hash) {}).votesAt h).filter fun w => w.payee = p).length : Int) := by
  have agree : (ops.foldl (tallyStep hash) {}).Agree :=
    List.foldlRecOn ops _ agree_empty fun s agree op _ => tallyStep_agree agree op
  generalize ops.foldl (tallyStep hash) {} = s at agree
  have counted := tally_eq_count agree.tallied h
  cases found : s.mapMasternodeBlocks.lookup h with
  | none =>
    -- A vote at the height would be counted in its tally.
    have empty : s.votesAt h = [] := by
      rw [List.eq_nil_iff_forall_not_mem]
      intro w member
      have one := counted w.payee
      rw [tally, found] at one
      have listed : w ∈ (s.votesAt h).filter fun v => v.payee = w.payee := by simpa using member
      have positive := List.length_pos_of_mem listed
      simp at one
      omega
    rw [if_pos empty]
    rfl
  | some b =>
    obtain ⟨k, w, stored, height⟩ := agree.voted h b found
    have nonempty : s.votesAt h ≠ [] := List.ne_nil_of_mem (mem_votesAt.mpr ⟨⟨k, stored⟩, height⟩)
    have total := counted p
    rw [tally, found, Option.elim_some] at total
    rw [if_neg nonempty, Option.map_some, CMasternodeBlockPayees.votesOf_eq_sum (agree.once h b found), total]

end CMasternodePayments

end SchillingCoin
