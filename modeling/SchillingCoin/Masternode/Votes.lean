import SchillingCoin.Lib.Run
import SchillingCoin.Masternode.Payments

/-!
Runs of the payment votes under `mnw` messages and cleaning.
-/

namespace SchillingCoin

namespace CMasternodePayments

inductive PaymentOp where
  | mnw (ctx : MasternodeContext) (winner : CMasternodePaymentWinner)
  | cleanPaymentList (ctx : MasternodeContext)

def step (hash : CScript → Int → COutPoint → uint256) (s : CMasternodePayments) : PaymentOp → CMasternodePayments
  | .mnw ctx winner => processWinner hash ctx s winner
  | .cleanPaymentList ctx => cleanPaymentList ctx s

variable (s : CMasternodePayments)

def votesAt (h : Int) : List CMasternodePaymentWinner :=
  (s.mapMasternodePayeeVotes.entries.map Sigma.snd).filter fun w => w.nBlockHeight = h

def tally (h : Int) (p : CScript) : Int :=
  ((s.mapMasternodeBlocks.lookup h).elim [] fun b => b.vecPayments.filter fun c => c.scriptPubKey = p).map
    CMasternodePayee.nVotes |>.sum

def OneVote : Prop :=
  ∀ k k' w w', s.mapMasternodePayeeVotes.lookup k = some w → s.mapMasternodePayeeVotes.lookup k' = some w' →
    w.nBlockHeight = w'.nBlockHeight → w.vinMasternode.prevout = w'.vinMasternode.prevout → k = k'

def Tallied : Prop :=
  ∀ h p, s.tally h p = StdMap.sum (fun _ w => if w.nBlockHeight = h ∧ w.payee = p then 1 else 0)
    s.mapMasternodePayeeVotes

/-- A message that the handler asks `CanVote` about. -/
structure ReachesCanVote (hash : CScript → Int → COutPoint → uint256) (ctx : MasternodeContext) (s : CMasternodePayments)
    (winner : CMasternodePaymentWinner) : Prop where
  synced : ctx.isBlockchainSynced = true
  full : ctx.fLiteMode = false
  peer : ctx.activeProtocol ≤ ctx.peerVersion
  fresh : s.mapMasternodePayeeVotes.lookup (winner.getHash hash) = none
  inRange : ∃ nHeight, ctx.tipHeight = some nHeight ∧ inRange ctx nHeight winner = true
  version : ¬(winner.nMessVersion ≠ .hash ∧ ctx.network.consensus.isMessSigV2 (winner.nBlockHeight - 6000) = true)
  valid : winner.isValid ctx = true

/-- A masternode whose vote is let through, with its own signature, has no stored vote for the height, or voted on it last. -/
def NoReturn (hash : CScript → Int → COutPoint → uint256) (s : CMasternodePayments) : PaymentOp → Prop
  | .mnw ctx winner => ReachesCanVote hash ctx s winner → ctx.checkSignature winner = true →
      ∀ e ∈ s.mapMasternodePayeeVotes.entries, e.2.nBlockHeight = winner.nBlockHeight →
        e.2.vinMasternode.prevout = winner.vinMasternode.prevout →
        s.mapMasternodesLastVote.lookup winner.vinMasternode.prevout = some winner.nBlockHeight
  | .cleanPaymentList _ => True

variable {hash : CScript → Int → COutPoint → uint256} {ctx : MasternodeContext} {s : CMasternodePayments} {winner : CMasternodePaymentWinner}

theorem processWinner_stopped (stopped : ¬ReachesCanVote hash ctx s winner) : processWinner hash ctx s winner = s := by
  unfold processWinner
  split
  · rfl
  next synced =>
  split
  · rfl
  next full =>
  split
  · rfl
  next peer =>
  split
  · rfl
  next nHeight tip =>
  split
  · rfl
  next fresh =>
  split
  · rfl
  next inRange =>
  split
  · rfl
  next version =>
  split
  · rfl
  next valid =>
    refine absurd ?_ stopped
    exact ⟨by simpa using synced, by simpa using full, by omega, by simpa using fresh, ⟨nHeight, tip, by simpa using inRange⟩, version,
      by simpa using valid⟩

theorem processWinner_reached (reached : ReachesCanVote hash ctx s winner) : processWinner hash ctx s winner =
    (let voted := s.canVote winner.vinMasternode.prevout winner.nBlockHeight
     if !voted.1 then s
     else if !ctx.checkSignature winner then voted.2
     else (addWinningMasternode hash ctx voted.2 winner).2) := by
  obtain ⟨synced, full, peer, fresh, ⟨nHeight, tip, inRange⟩, version, valid⟩ := reached
  have version : ctx.network.consensus.isMessSigV2 (winner.nBlockHeight - 6000) = true → winner.nMessVersion = .hash := by
    intro active
    by_contra other
    exact version ⟨other, active⟩
  unfold processWinner
  rw [synced, full, tip]
  simp only [Bool.not_true, Bool.false_eq_true, if_false, fresh, Option.isSome_none, inRange, valid]
  rw [if_neg (by omega), if_neg fun both => both.1 (version both.2)]

theorem addWinningMasternode_cases (hash : CScript → Int → COutPoint → uint256) (ctx : MasternodeContext)
    (s : CMasternodePayments) (winner : CMasternodePaymentWinner) :
    (addWinningMasternode hash ctx s winner).2 = s ∨
    (s.mapMasternodePayeeVotes.lookup (winner.getHash hash) = none ∧
      (addWinningMasternode hash ctx s winner).2.mapMasternodePayeeVotes =
        s.mapMasternodePayeeVotes.insert (winner.getHash hash) winner ∧
      (addWinningMasternode hash ctx s winner).2.mapMasternodeBlocks = s.mapMasternodeBlocks.insert winner.nBlockHeight
        (((s.mapMasternodeBlocks.lookup winner.nBlockHeight).getD ⟨winner.nBlockHeight, []⟩).addPayee
          winner.payee 1)) := by
  unfold addWinningMasternode
  split
  · exact Or.inl rfl
  · split
    · exact Or.inl rfl
    · rename_i unseen
      exact Or.inr ⟨by simpa using unseen, rfl, rfl⟩

theorem processWinner_cases (hash : CScript → Int → COutPoint → uint256) (ctx : MasternodeContext)
    (s : CMasternodePayments) (winner : CMasternodePaymentWinner) :
    ((processWinner hash ctx s winner).mapMasternodePayeeVotes = s.mapMasternodePayeeVotes ∧
      (processWinner hash ctx s winner).mapMasternodeBlocks = s.mapMasternodeBlocks) ∨
    (ReachesCanVote hash ctx s winner ∧ ctx.checkSignature winner = true ∧
      s.mapMasternodesLastVote.lookup winner.vinMasternode.prevout ≠ some winner.nBlockHeight ∧
      (processWinner hash ctx s winner).mapMasternodePayeeVotes =
        s.mapMasternodePayeeVotes.insert (winner.getHash hash) winner ∧
      (processWinner hash ctx s winner).mapMasternodeBlocks = s.mapMasternodeBlocks.insert winner.nBlockHeight
        (((s.mapMasternodeBlocks.lookup winner.nBlockHeight).getD ⟨winner.nBlockHeight, []⟩).addPayee
          winner.payee 1)) := by
  by_cases reached : ReachesCanVote hash ctx s winner
  · rw [processWinner_reached reached]
    by_cases last : s.mapMasternodesLastVote.lookup winner.vinMasternode.prevout = some winner.nBlockHeight
    · simp [canVote, last]
    · simp only [canVote, last, if_false, Bool.not_true, Bool.false_eq_true]
      split
      · exact Or.inl ⟨rfl, rfl⟩
      · rename_i signed
        rcases addWinningMasternode_cases hash ctx (s.canVote winner.vinMasternode.prevout winner.nBlockHeight).2 winner with
          same | ⟨_, votes, blocks⟩
        · simp only [canVote, last, if_false] at same
          rw [same]
          exact Or.inl ⟨rfl, rfl⟩
        · simp only [canVote, last, if_false] at votes blocks
          exact Or.inr ⟨reached, by simpa using signed, last, votes, blocks⟩
  · rw [processWinner_stopped reached]
    exact Or.inl ⟨rfl, rfl⟩

theorem processWinner_oneVote (once : s.OneVote) (calm : s.NoReturn hash (.mnw ctx winner)) :
    (processWinner hash ctx s winner).OneVote := by
  rcases processWinner_cases hash ctx s winner with ⟨votes, _⟩ | ⟨reached, signed, last, votes, _⟩
  · intro k k' w w'
    rw [votes]
    exact once k k' w w'
  · -- A stored vote of this masternode for this height would make it the last height voted on.
    have fresh : ∀ k w, s.mapMasternodePayeeVotes.lookup k = some w → w.nBlockHeight = winner.nBlockHeight →
        w.vinMasternode.prevout ≠ winner.vinMasternode.prevout :=
      fun k w stored height same => last (calm reached signed ⟨k, w⟩ (StdMap.mem_entries_iff.mpr stored) height same)
    intro k k' w w' found found' height same
    rw [votes, StdMap.lookup_insert_ite] at found found'
    split at found <;> split at found'
    · rename_i first second
      rw [first, second]
    · obtain rfl := Option.some.inj found
      exact absurd same.symm (fresh k' w' found' height.symm)
    · obtain rfl := Option.some.inj found'
      exact absurd same (fresh k w found height)
    · exact once k k' w w' found found' height same

theorem addVotes_count (q p : CScript) (n : Int) (l : List CMasternodePayee) :
    (((CMasternodeBlockPayees.addVotes q n l).filter fun c => c.scriptPubKey = p).map CMasternodePayee.nVotes).sum =
      ((l.filter fun c => c.scriptPubKey = p).map CMasternodePayee.nVotes).sum + if q = p then n else 0 := by
  induction l with
  | nil =>
    by_cases same : q = p
    · simp [CMasternodeBlockPayees.addVotes, same]
    · simp [CMasternodeBlockPayees.addVotes, same]
  | cons c l ih =>
    unfold CMasternodeBlockPayees.addVotes
    by_cases here : c.scriptPubKey = q
    · by_cases same : q = p
      · simp [here, same]
        omega
      · simp [here, same]
    · rw [if_neg here]
      by_cases counted : c.scriptPubKey = p
      · simp only [counted, List.filter_cons, decide_true, if_true, List.map_cons, List.sum_cons, ih]
        omega
      · simp only [counted, List.filter_cons, decide_false, Bool.false_eq_true, if_false, ih]

theorem tallied_insert {t : CMasternodePayments} {hash : uint256} (tallied : s.Tallied)
    (absent : s.mapMasternodePayeeVotes.lookup hash = none)
    (votes : t.mapMasternodePayeeVotes = s.mapMasternodePayeeVotes.insert hash winner)
    (blocks : t.mapMasternodeBlocks = s.mapMasternodeBlocks.insert winner.nBlockHeight (((s.mapMasternodeBlocks.lookup winner.nBlockHeight).getD ⟨winner.nBlockHeight, []⟩).addPayee winner.payee 1)) :
    t.Tallied := by
  intro h p
  rw [tally, votes, blocks, StdMap.sum_insert_absent _ _ absent, StdMap.lookup_insert_ite]
  have before := tallied h p
  by_cases height : h = winner.nBlockHeight
  · subst height
    rw [if_pos rfl, Option.elim_some, CMasternodeBlockPayees.addPayee, addVotes_count, ← before, tally]
    cases s.mapMasternodeBlocks.lookup winner.nBlockHeight with
    | none => simp
    | some b => simp [add_comm]
  · rw [if_neg height, if_neg (fun same => height same.1.symm), zero_add, ← before, tally]

theorem processWinner_tallied (tallied : s.Tallied) : (processWinner hash ctx s winner).Tallied := by
  rcases processWinner_cases hash ctx s winner with ⟨votes, blocks⟩ | ⟨reached, _, _, votes, blocks⟩
  · intro h p
    rw [tally, votes, blocks]
    exact tallied h p
  · exact tallied_insert tallied reached.fresh votes blocks

theorem cleanVote_oneVote {hash : uint256} (once : s.OneVote) : (cleanVote ctx nHeight s hash winner).OneVote := by
  unfold cleanVote
  split
  · intro k k' w w' found found'
    rw [StdMap.lookup_erase_ite] at found found'
    split at found
    · cases found
    · split at found'
      · cases found'
      · exact once k k' w w' found found'
  · exact once

theorem cleanPaymentList_oneVote (once : s.OneVote) :
    (cleanPaymentList ctx s).OneVote := by
  unfold cleanPaymentList
  cases ctx.tipHeight with
  | none => exact once
  | some nHeight =>
    exact List.foldlRecOn _ _ once fun s once e _ => cleanVote_oneVote once

theorem cleanLoop_slot (ctx : MasternodeContext) (nHeight : Int) (h : Int)
    (votes : List (Sigma fun _ : uint256 => CMasternodePaymentWinner)) (s : CMasternodePayments) :
    let t := votes.foldl (fun s e => cleanVote ctx nHeight s e.1 e.2) s
    t.mapMasternodeBlocks.lookup h =
      (if votes.any fun e => tooOld ctx nHeight e.2 && e.2.nBlockHeight == h then none
       else s.mapMasternodeBlocks.lookup h) ∧
    ∀ k, t.mapMasternodePayeeVotes.lookup k =
      (if votes.any fun e => tooOld ctx nHeight e.2 && e.1 == k then none
       else s.mapMasternodePayeeVotes.lookup k) := by
  induction votes generalizing s with
  | nil => simp
  | cons e votes ih =>
    obtain ⟨blocks, kept⟩ := ih (cleanVote ctx nHeight s e.1 e.2)
    rw [List.foldl_cons]
    refine ⟨blocks.trans ?_, fun k => (kept k).trans ?_⟩
    · by_cases gone : (tooOld ctx nHeight e.2 && e.2.nBlockHeight == h) = true
      · obtain ⟨old, same⟩ := Bool.and_eq_true_iff.mp gone
        simp [cleanVote, old, (eq_of_beq same).symm]
      · rw [List.any_cons, Bool.eq_false_iff.mpr gone, Bool.false_or]
        by_cases old : tooOld ctx nHeight e.2 = true
        · have other : ¬h = e.2.nBlockHeight := fun same => gone (by simp [old, same])
          simp [cleanVote, old, other]
        · simp [cleanVote, old]
    · by_cases gone : (tooOld ctx nHeight e.2 && e.1 == k) = true
      · obtain ⟨old, same⟩ := Bool.and_eq_true_iff.mp gone
        simp [cleanVote, old, (eq_of_beq same).symm]
      · rw [List.any_cons, Bool.eq_false_iff.mpr gone, Bool.false_or]
        by_cases old : tooOld ctx nHeight e.2 = true
        · have other : ¬k = e.1 := fun same => gone (by simp [old, same])
          simp [cleanVote, old, other]
        · simp [cleanVote, old]

theorem cleanPaymentList_tallied (tallied : s.Tallied) :
    (cleanPaymentList ctx s).Tallied := by
  unfold cleanPaymentList
  cases ctx.tipHeight with
  | none => exact tallied
  | some nHeight =>
    intro h p
    obtain ⟨blocks, kept⟩ := cleanLoop_slot ctx nHeight h s.mapMasternodePayeeVotes.entries s
    rw [tally, blocks]
    split
    · -- Age depends on the height alone, so every vote for `h` is removed.
      rename_i gone
      obtain ⟨e, _, removed⟩ := List.any_eq_true.mp gone
      obtain ⟨old, height⟩ := Bool.and_eq_true_iff.mp removed
      rw [StdMap.sum_eq_zero]
      · rfl
      · intro k w found
        rw [kept k] at found
        split at found
        · cases found
        · rename_i stays
          refine if_neg fun counted => stays (List.any_eq_true.mpr ⟨⟨k, w⟩, StdMap.mem_entries_iff.mpr found, ?_⟩)
          have age : tooOld ctx nHeight w = true := by
            rw [← old]
            simp [tooOld, counted.1, eq_of_beq height]
          simp [age]
    · rename_i stays
      refine (tallied h p).trans (StdMap.sum_congr _ fun k => ?_)
      unfold StdMap.weightAt
      rw [kept k]
      split
      · rename_i gone
        obtain ⟨e, mem, removed⟩ := List.any_eq_true.mp gone
        obtain ⟨old, key⟩ := Bool.and_eq_true_iff.mp removed
        have found : s.mapMasternodePayeeVotes.lookup k = some e.2 :=
          eq_of_beq key ▸ StdMap.mem_entries_iff.mp mem
        rw [found]
        refine if_neg fun counted => stays (List.any_eq_true.mpr ⟨e, mem, ?_⟩)
        simp [old, counted.1]
      · rfl

structure CountedOnce (s : CMasternodePayments) : Prop where
  once : s.OneVote
  tallied : s.Tallied

theorem step_countedOnce (inv : s.CountedOnce) (calm : s.NoReturn hash op) : (step hash s op).CountedOnce := by
  cases op with
  | mnw ctx winner => exact ⟨processWinner_oneVote inv.once calm, processWinner_tallied inv.tallied⟩
  | cleanPaymentList ctx => exact ⟨cleanPaymentList_oneVote inv.once, cleanPaymentList_tallied inv.tallied⟩

theorem countedOnce_empty : CountedOnce {} where
  once k _ w _ found := by simp at found
  tallied h p := by simp [tally]

theorem votesAt_nodup (once : s.OneVote) (h : Int) :
    ((s.votesAt h).map fun w => w.vinMasternode.prevout).Nodup := by
  have keys : s.mapMasternodePayeeVotes.entries.Pairwise fun e e' => e.1 ≠ e'.1 :=
    List.nodupKeys_iff_pairwise.mp s.mapMasternodePayeeVotes.nodupKeys
  rw [votesAt, List.filter_map, List.map_map, List.Nodup, List.pairwise_map]
  refine (keys.filter _).imp_of_mem fun {e e'} mem mem' different same => different ?_
  simp only [List.mem_filter, Function.comp_apply, decide_eq_true_eq] at mem mem'
  exact once e.1 e'.1 e.2 e'.2 (StdMap.mem_entries_iff.mp mem.1) (StdMap.mem_entries_iff.mp mem'.1)
    (mem.2.trans mem'.2.symm) same

theorem tally_eq_count (tallied : s.Tallied) (h : Int) (p : CScript) :
    s.tally h p = ((s.votesAt h).filter fun w => w.payee = p).length := by
  rw [tallied h p, votesAt, List.filter_filter, ← List.countP_eq_length_filter, List.countP_map, StdMap.sum]
  induction s.mapMasternodePayeeVotes.entries with
  | nil => rfl
  | cons e entries ih =>
    rw [List.map_cons, List.sum_cons, ih, List.countP_cons]
    by_cases counted : e.2.nBlockHeight = h ∧ e.2.payee = p
    · simp [counted, add_comm]
    · rw [if_neg counted, if_neg (by simpa [and_comm] using counted)]
      simp

/-- In every run in which no masternode comes back, with a vote that is let through, to a height after voting on another, a masternode
has at most one vote for a height, and the tally of the height counts it once. -/
theorem counted_once_without_return (hash : CScript → Int → COutPoint → uint256) (s : CMasternodePayments)
    (reached : Run.Reached (step hash) (NoReturn hash) {} s) :
    s.OneVote ∧ ∀ h, ((s.votesAt h).map fun w => w.vinMasternode.prevout).Nodup ∧
      ∀ p, s.tally h p = ((s.votesAt h).filter fun w => w.payee = p).length := by
  have inv : s.CountedOnce :=
    reached.invariant CountedOnce countedOnce_empty fun _ _ inv calm => step_countedOnce inv calm
  exact ⟨inv.once, fun h => ⟨votesAt_nodup inv.once h, fun p => tally_eq_count inv.tallied h p⟩⟩

section Return

def someHash (payee : CScript) (h : Int) (o : COutPoint) : uint256 :=
  BitVec.ofNat 256 ((payee.length * 2 ^ 32 + h.toNat) * 2 ^ 32 + o.n)

def someContext : MasternodeContext where
  network := .main
  peerVersion := 70919
  activeProtocol := 70919
  tipHeight := some 1000
  countEnabled := 12
  size := 12
  find _ := some 70919
  getMasternodeRank _ _ := 1
  checkSignature _ := true
  getBlockHash _ := some 1

def vote (masternode : Nat) (h : Int) (payee : CScript) : PaymentOp :=
  .mnw someContext { vinMasternode := { prevout := ⟨7, masternode⟩ }, nBlockHeight := h, payee }

/-- The last message is the first once more, which is known. -/
def calmVotes : CMasternodePayments :=
  step someHash (step someHash (step someHash (step someHash {} (vote 0 1001 [0x51])) (vote 1 1001 [0x51])) (vote 0 1002 [0x51]))
    (vote 0 1001 [0x51])

theorem counted_once_in_calm_votes :
    calmVotes.OneVote ∧ calmVotes.tally 1001 [0x51] = 2 ∧ ((calmVotes.votesAt 1001).map fun w => w.vinMasternode.prevout).Nodup := by
  have reached : Run.Reached (step someHash) (NoReturn someHash) {} calmVotes := by
    refine .step _ (.step _ (.step _ (.step _ .start ?_) ?_) ?_) ?_
    · intro _ _
      decide
    · intro _ _
      decide
    · intro _ _
      decide
    · intro again _
      exact absurd again.fresh (by decide)
  obtain ⟨once, counted⟩ := counted_once_without_return someHash calmVotes reached
  exact ⟨once, by decide, (counted 1001).1⟩

def returningVotes : CMasternodePayments :=
  [vote 0 1001 [0x51], vote 0 1002 [0x51], vote 0 1001 [0x52, 0x53]].foldl (step someHash) {}

theorem returning_masternode_counted_twice :
    ¬returningVotes.OneVote ∧
    (returningVotes.votesAt 1001).map (fun w => w.vinMasternode.prevout) = [⟨7, 0⟩, ⟨7, 0⟩] ∧
    returningVotes.tally 1001 [0x51] = 1 ∧ returningVotes.tally 1001 [0x52, 0x53] = 1 := by
  refine ⟨fun once => ?_, by decide, by decide, by decide⟩
  have same := once (someHash [0x51] 1001 ⟨7, 0⟩) (someHash [0x52, 0x53] 1001 ⟨7, 0⟩) _ _
    (by decide : _ = some { vinMasternode := { prevout := ⟨7, 0⟩ }, nBlockHeight := 1001, payee := [0x51] })
    (by decide : _ = some { vinMasternode := { prevout := ⟨7, 0⟩ }, nBlockHeight := 1001, payee := [0x52, 0x53] })
    rfl rfl
  exact absurd same (by decide)

end Return

end CMasternodePayments

end SchillingCoin
