import SchillingCoin.Swift.Locks

/-!
The maps of the transaction locks under any order of messages: what is stored under a hash belongs to it, and no
masternode signs a lock twice.
-/

namespace SchillingCoin

namespace SwiftTX

/-- Locks and requests are stored under their hashes. A request may be the empty one that `operator[]` inserts. -/
structure Keyed (s : SwiftTX) : Prop where
  locks : s.LocksKeyed
  requests : ∀ h tx, s.mapTxLockReq.lookup h = some tx → tx.hash = h ∨ tx = .null
  rejected : ∀ h tx, s.mapTxLockReqRejected.lookup h = some tx → tx.hash = h

structure VotesApart (s : SwiftTX) : Prop where
  own : ∀ h l, s.lockAt h = some l → ∀ v ∈ l.vecConsensusVotes, v.txHash = h
  remembered : ∀ h l, s.lockAt h = some l → ∀ v ∈ l.vecConsensusVotes, (s.mapTxLockVote.lookup v.getHash).isSome
  nodup : ∀ h l, s.lockAt h = some l → (l.vecConsensusVotes.map CConsensusVote.getHash).Nodup
  apart : ∀ h l h' l', s.lockAt h = some l → s.lockAt h' = some l' → ∀ v ∈ l.vecConsensusVotes,
    ∀ v' ∈ l'.vecConsensusVotes, v.getHash = v'.getHash → h = h'

variable {s : SwiftTX}

theorem lockAt_eq_some :
    s.lockAt h = some b ↔ ∃ l, s.mapTxLocks.lookup h = some l ∧ l.body = b := Option.map_eq_some_iff

theorem locksKeyed_iff : s.LocksKeyed ↔ ∀ h l, s.lockAt h = some l → l.txHash = h := by
  constructor
  · intro keyed h b found
    obtain ⟨l, stored, rfl⟩ := lockAt_eq_some.mp found
    exact keyed h l stored
  · intro keyed h l found
    exact keyed h l.body (lockAt_eq_some.mpr ⟨l, found, rfl⟩)

theorem Requested.keyed (requested : Requested s t tx) (keyed : s.Keyed) :
    t.Keyed where
  locks := by
    rw [locksKeyed_iff]
    intro h l found
    by_cases same : h = tx.hash
    · subst same
      rcases requested.own l found with ⟨hash, _⟩ | ⟨old, before, hash, _⟩
      · exact hash
      · exact hash.trans (locksKeyed_iff.mp keyed.locks _ old before)
    · rw [requested.other h same] at found
      exact locksKeyed_iff.mp keyed.locks h l found
  requests := by
    intro h tx' found
    rcases requested.req with same | inserted
    · rw [same] at found
      exact keyed.requests h tx' found
    · rw [inserted, StdMap.lookup_insert_ite] at found
      split at found
      · rename_i same
        obtain rfl := Option.some.inj found
        exact Or.inl same.symm
      · exact keyed.requests h tx' found
  rejected := by
    intro h tx' found
    rcases requested.rejected with same | inserted
    · rw [same] at found
      exact keyed.rejected h tx' found
    · rw [inserted, StdMap.lookup_insert_ite] at found
      split at found
      · rename_i same
        obtain rfl := Option.some.inj found
        exact same.symm
      · exact keyed.rejected h tx' found

theorem votedLock_txHash (keyed : s.LocksKeyed) (vote : CConsensusVote) : (s.votedLock ctx vote).txHash = vote.txHash := by
  unfold votedLock
  cases found : s.mapTxLocks.lookup vote.txHash with
  | none => rfl
  | some old => exact keyed _ old found

theorem withVote_lookup (h : uint256) :
    (s.withVote ctx vote).mapTxLocks.lookup h =
      if h = vote.txHash then some (s.votedLock ctx vote) else s.mapTxLocks.lookup h :=
  StdMap.lookup_insert_ite _ _ _ _

variable (ctx : SwiftContext)

theorem withVote_keyed (vote : CConsensusVote) (keyed : s.Keyed) : (s.withVote ctx vote).Keyed where
  locks := by
    intro h l found
    rw [withVote_lookup] at found
    split at found
    · rename_i same
      obtain rfl := Option.some.inj found
      rw [same]
      exact votedLock_txHash keyed.locks vote
    · exact keyed.locks h l found
  requests := keyed.requests
  rejected := keyed.rejected

theorem completeLock_keyed (txHash : uint256) (keyed : s.Keyed) : (s.completeLock ctx txHash).Keyed := by
  obtain ⟨req, rejected, _, locks, _⟩ := completeLock_spec ctx s txHash
  refine ⟨locksKeyed_iff.mpr fun h l found => ?_, fun h tx found => ?_, fun h tx found => ?_⟩
  · exact locksKeyed_iff.mp keyed.locks h l ((locks h).symm.trans found)
  · rw [req, StdMap.lookup_insert_ite] at found
    split at found
    · rename_i same
      subst same
      cases before : s.mapTxLockReq.lookup h with
      | none =>
        rw [before] at found
        exact Or.inr (Option.some.inj found).symm
      | some old =>
        rw [before] at found
        obtain rfl := Option.some.inj found
        exact keyed.requests h old before
    · exact keyed.requests h tx found
  · rw [rejected] at found
    exact keyed.rejected h tx found

theorem step_keyed (keyed : s.Keyed) (op : Op) : (s.step op).Keyed := by
  cases op with
  | ix ctx tx =>
    rw [step]
    split
    · exact keyed
    · exact (processRequest_requested ctx s tx).keyed keyed
  | txlvote ctx vote =>
    rw [step]
    split
    · exact keyed
    · rcases processVote_cases ctx s vote with ⟨_, same | ⟨_, same | ⟨unknown, same⟩⟩⟩ | ⟨_, unknown, same⟩
      · rw [same]
        exact keyed
      · rw [same]
        exact ⟨keyed.locks, keyed.requests, keyed.rejected⟩
      · have next := withVote_keyed ctx vote keyed
        rw [same]
        exact ⟨next.locks, next.requests, next.rejected⟩
      · have next := completeLock_keyed ctx vote.txHash (withVote_keyed ctx vote keyed)
        rw [same]
        exact ⟨next.locks, next.requests, next.rejected⟩
  | clean ctx =>
    rw [step]
    by_cases tip : ctx.tipHeight.isSome
    · obtain ⟨locks, req, rejected, _, _⟩ := cleanTransactionLocksList_spec ctx keyed.locks tip
      exact ⟨fun h l found => keyed.locks h l ((locks h l).mp found).1,
        fun h tx found => keyed.requests h tx ((req h tx).mp found).1,
        fun h tx found => keyed.rejected h tx ((rejected h tx).mp found).1⟩
    · have none_ : ctx.tipHeight = none := by simpa using tip
      rw [cleanTransactionLocksList, none_]
      exact keyed

theorem VotesApart.mono {t : SwiftTX} (apart : s.VotesApart)
    (locks : ∀ h l, t.lockAt h = some l → l.vecConsensusVotes = [] ∨ ∃ old, s.lockAt h = some old ∧ l.vecConsensusVotes = old.vecConsensusVotes)
    (remembered : ∀ h l, t.lockAt h = some l → ∀ v ∈ l.vecConsensusVotes, (s.mapTxLockVote.lookup v.getHash).isSome → (t.mapTxLockVote.lookup v.getHash).isSome) :
    t.VotesApart := by
  have from_ : ∀ h l, t.lockAt h = some l → ∀ v ∈ l.vecConsensusVotes,
      ∃ old, s.lockAt h = some old ∧ v ∈ old.vecConsensusVotes := by
    intro h l found v member
    rcases locks h l found with empty | ⟨old, before, same⟩
    · rw [empty] at member
      cases member
    · exact ⟨old, before, same ▸ member⟩
  refine ⟨fun h l found v member => ?_, fun h l found v member => ?_, fun h l found => ?_, ?_⟩
  · obtain ⟨old, before, listed⟩ := from_ h l found v member
    exact apart.own h old before v listed
  · obtain ⟨old, before, listed⟩ := from_ h l found v member
    exact remembered h l found v member (apart.remembered h old before v listed)
  · rcases locks h l found with empty | ⟨old, before, same⟩
    · rw [empty]
      exact List.nodup_nil
    · rw [same]
      exact apart.nodup h old before
  · intro h l h' l' found found' v member v' member' equal
    obtain ⟨old, before, listed⟩ := from_ h l found v member
    obtain ⟨old', before', listed'⟩ := from_ h' l' found' v' member'
    exact apart.apart h old h' old' before before' v listed v' listed' equal

theorem votedLock_votes (s : SwiftTX) (vote : CConsensusVote) :
    (s.votedLock ctx vote).vecConsensusVotes =
      ((s.lockAt vote.txHash).elim [] CTransactionLock.vecConsensusVotes) ++ [vote] := by
  unfold votedLock lockAt
  cases s.mapTxLocks.lookup vote.txHash with
  | none => rfl
  | some old => rfl

theorem withVote_apart (apart : s.VotesApart) (fresh : s.mapTxLockVote.lookup vote.getHash = none) :
    (s.withVote ctx vote).VotesApart := by
  have locks : ∀ h l, (s.withVote ctx vote).lockAt h = some l → ∀ v ∈ l.vecConsensusVotes,
      (v = vote ∧ h = vote.txHash) ∨ ∃ old, s.lockAt h = some old ∧ v ∈ old.vecConsensusVotes := by
    intro h l found v member
    obtain ⟨lock, stored, rfl⟩ := lockAt_eq_some.mp found
    rw [withVote_lookup] at stored
    split at stored
    · rename_i same
      obtain rfl := Option.some.inj stored
      have listed : v ∈ (s.votedLock ctx vote).vecConsensusVotes := member
      rw [votedLock_votes, List.mem_append, List.mem_singleton, ← same] at listed
      rcases listed with before | new
      · cases held : s.lockAt h with
        | none =>
          rw [held] at before
          cases before
        | some old =>
          rw [held] at before
          exact Or.inr ⟨old, rfl, before⟩
      · exact Or.inl ⟨new, same⟩
    · exact Or.inr ⟨lock.body, lockAt_eq_some.mpr ⟨lock, stored, rfl⟩, member⟩
  have differs : ∀ h old, s.lockAt h = some old → ∀ v ∈ old.vecConsensusVotes, v.getHash ≠ vote.getHash := by
    intro h old found v member equal
    have seen := apart.remembered h old found v member
    rw [equal, fresh] at seen
    cases seen
  refine ⟨fun h l found v member => ?_, fun h l found v member => ?_, fun h l found => ?_, ?_⟩
  · rcases locks h l found v member with ⟨rfl, same⟩ | ⟨old, before, listed⟩
    · exact same.symm
    · exact apart.own h old before v listed
  · have stored : (s.withVote ctx vote).mapTxLockVote.lookup v.getHash =
        if v.getHash = vote.getHash then some vote else s.mapTxLockVote.lookup v.getHash := StdMap.lookup_insert_ite _ _ _ _
    rw [stored]
    split
    · rfl
    · rcases locks h l found v member with ⟨rfl, _⟩ | ⟨old, before, listed⟩
      · contradiction
      · exact apart.remembered h old before v listed
  · obtain ⟨lock, stored, rfl⟩ := lockAt_eq_some.mp found
    rw [withVote_lookup] at stored
    split at stored
    · obtain rfl := Option.some.inj stored
      show ((s.votedLock ctx vote).vecConsensusVotes.map CConsensusVote.getHash).Nodup
      rw [votedLock_votes]
      cases held : s.lockAt vote.txHash with
      | none => simp
      | some old =>
        rw [Option.elim_some, List.map_append, List.nodup_append]
        refine ⟨apart.nodup _ old held, by simp, ?_⟩
        intro x listed y last
        obtain ⟨v, member, rfl⟩ := List.mem_map.mp listed
        rw [List.map_singleton, List.mem_singleton] at last
        rw [last]
        exact differs _ old held v member
    · exact apart.nodup h lock.body (lockAt_eq_some.mpr ⟨lock, stored, rfl⟩)
  · intro h l h' l' found found' v member v' member' equal
    rcases locks h l found v member with ⟨rfl, same⟩ | ⟨old, before, listed⟩
    · rcases locks h' l' found' v' member' with ⟨_, same'⟩ | ⟨old', before', listed'⟩
      · rw [same, same']
      · exact absurd equal.symm (differs h' old' before' v' listed')
    · rcases locks h' l' found' v' member' with ⟨rfl, _⟩ | ⟨old', before', listed'⟩
      · exact absurd equal (differs h old before v listed)
      · exact apart.apart h old h' old' before before' v listed v' listed' equal

theorem step_apart (keyed : s.Keyed) (apart : s.VotesApart) (op : Op) : (s.step op).VotesApart := by
  have same_ : ∀ t : SwiftTX, (∀ h, t.lockAt h = s.lockAt h) → (∀ x, (s.mapTxLockVote.lookup x).isSome →
      (t.mapTxLockVote.lookup x).isSome) → t.VotesApart := by
    intro t locks remembered
    exact apart.mono (fun h l found => Or.inr ⟨l, (locks h).symm.trans found, rfl⟩) fun h l _ v _ => remembered v.getHash
  cases op with
  | ix ctx tx =>
    rw [step]
    split
    · exact apart
    · have requested := processRequest_requested ctx s tx
      refine apart.mono (fun h l found => ?_) fun h l _ v _ => requested.votes v.getHash
      by_cases own : h = tx.hash
      · subst own
        rcases requested.own l found with ⟨_, empty⟩ | ⟨old, before, _, votes⟩
        · exact Or.inl empty
        · exact Or.inr ⟨old, before, votes⟩
      · exact Or.inr ⟨l, (requested.other h own).symm.trans found, rfl⟩
  | txlvote ctx vote =>
    rw [step]
    split
    · exact apart
    · rcases processVote_cases ctx s vote with ⟨_, same | ⟨fresh, same | ⟨unknown, same⟩⟩⟩ | ⟨complete, unknown, same⟩
      · rw [same]
        exact apart
      · rw [same]
        refine same_ _ (fun _ => rfl) fun x seen => ?_
        rw [StdMap.lookup_insert_ite]
        split
        · rfl
        · exact seen
      · have next := withVote_apart ctx apart fresh
        rw [same]
        exact ⟨next.own, next.remembered, next.nodup, next.apart⟩
      · have next := withVote_apart ctx apart complete.1
        obtain ⟨_, _, votes, locks, _⟩ := completeLock_spec ctx (s.withVote ctx vote) vote.txHash
        rw [same]
        exact next.mono (fun h l found => Or.inr ⟨l, (locks h).symm.trans found, rfl⟩)
          fun h l _ v _ seen => by rw [← votes] at seen; exact seen
  | clean ctx =>
    rw [step]
    by_cases tip : ctx.tipHeight.isSome
    · obtain ⟨locks, _, _, _, votes⟩ := cleanTransactionLocksList_spec ctx keyed.locks tip
      have before : ∀ h l, (s.cleanTransactionLocksList ctx).lockAt h = some l →
          ∃ lock, s.mapTxLocks.lookup h = some lock ∧ ¬Expired ctx lock ∧ lock.body = l := by
        intro h l found
        obtain ⟨lock, stored, rfl⟩ := lockAt_eq_some.mp found
        obtain ⟨held, kept⟩ := (locks h lock).mp stored
        exact ⟨lock, held, kept, rfl⟩
      refine apart.mono (fun h l found => ?_) fun h l found v member seen => ?_
      · obtain ⟨lock, held, _, rfl⟩ := before h l found
        exact Or.inr ⟨lock.body, lockAt_eq_some.mpr ⟨lock, held, rfl⟩, rfl⟩
      · -- A vote that is dropped is in a lock that expired, and then not in one that is kept.
        obtain ⟨lock, held, kept, rfl⟩ := before h l found
        obtain ⟨w, stored⟩ := Option.isSome_iff_exists.mp seen
        refine Option.isSome_iff_exists.mpr ⟨w, (votes _ w).mpr ⟨stored, ?_⟩⟩
        rintro k gone found' ⟨expired, _, dropped⟩
        obtain ⟨v', member', equal⟩ := List.mem_map.mp dropped
        have same := apart.apart k gone.body h lock.body (lockAt_eq_some.mpr ⟨gone, found', rfl⟩)
          (lockAt_eq_some.mpr ⟨lock, held, rfl⟩) v' member' v member equal
        subst same
        rw [held] at found'
        obtain rfl := Option.some.inj found'
        exact kept expired
    · have none_ : ctx.tipHeight = none := by simpa using tip
      rw [cleanTransactionLocksList, none_]
      exact apart

def WellFormed (s : SwiftTX) : Prop :=
  (∀ h l, s.mapTxLocks.lookup h = some l →
    (l.vecConsensusVotes.map fun v => v.vinMasternode.prevout).Nodup ∧ l.txHash = h) ∧
  ∀ h tx, s.mapTxLockReq.lookup h = some tx → tx.getHash = h

def FindsRequest (s : SwiftTX) : Op → Prop
  | .txlvote ctx vote => ignores ctx = false → s.Completes ctx vote →
    (s.mapTxLockReq.lookup vote.txHash).isSome ∨ vote.txHash = 0
  | .ix _ _ => True
  | .clean _ => True

theorem VotesApart.signers (apart : s.VotesApart) (found : s.mapTxLocks.lookup h = some l) :
    (l.vecConsensusVotes.map fun v => v.vinMasternode.prevout).Nodup := by
  have held : s.lockAt h = some l.body := lockAt_eq_some.mpr ⟨l, found, rfl⟩
  have same : l.vecConsensusVotes.map CConsensusVote.getHash =
      (l.vecConsensusVotes.map fun v => v.vinMasternode.prevout).map fun o => o.hash + BitVec.ofNat 256 o.n + h := by
    rw [List.map_map]
    apply List.map_congr_left
    intro v member
    simp only [CConsensusVote.getHash, Function.comp, apart.own h l.body held v member]
  have nodup : (l.vecConsensusVotes.map CConsensusVote.getHash).Nodup := apart.nodup h l.body held
  rw [same] at nodup
  exact nodup.of_map

theorem wellFormed_iff (keyed : s.Keyed) (apart : s.VotesApart) :
    s.WellFormed ↔ ∀ h tx, s.mapTxLockReq.lookup h = some tx → tx.hash = h :=
  ⟨And.right, fun requests => ⟨fun h l found => ⟨apart.signers found, keyed.locks h l found⟩, requests⟩⟩

theorem step_wellFormed_iff (keyed : s.Keyed) (apart : s.VotesApart) (formed : s.WellFormed) (op : Op) :
    (s.step op).WellFormed ↔ s.FindsRequest op := by
  rw [wellFormed_iff (step_keyed keyed op) (step_apart keyed apart op)]
  cases op with
  | ix ctx tx =>
    refine iff_of_true ?_ trivial
    rw [step]
    split
    · exact formed.2
    · intro h tx' found
      rcases (processRequest_requested ctx s tx).req with same | inserted
      · rw [same] at found
        exact formed.2 h tx' found
      · rw [inserted, StdMap.lookup_insert_ite] at found
        split at found
        · rename_i same
          obtain rfl := Option.some.inj found
          exact same.symm
        · exact formed.2 h tx' found
  | clean ctx =>
    refine iff_of_true ?_ trivial
    rw [step]
    by_cases tip : ctx.tipHeight.isSome
    · obtain ⟨_, req, _, _, _⟩ := cleanTransactionLocksList_spec ctx keyed.locks tip
      exact fun h tx found => formed.2 h tx ((req h tx).mp found).1
    · have none_ : ctx.tipHeight = none := by simpa using tip
      rw [cleanTransactionLocksList, none_]
      exact formed.2
  | txlvote ctx vote =>
    rw [step]
    by_cases ignored : ignores ctx = true
    · rw [if_pos ignored]
      exact iff_of_true formed.2 fun handled => by rw [handled] at ignored; cases ignored
    · rw [if_neg ignored]
      have handled : ignores ctx = false := by simpa using ignored
      rcases processVote_cases ctx s vote with ⟨incomplete, same⟩ | ⟨complete, unknown, same⟩
      · have req : (s.processVote ctx vote).2.mapTxLockReq = s.mapTxLockReq := by
          rcases same with eq | ⟨_, eq | ⟨unknown, eq⟩⟩
          · rw [eq]
          · rw [eq]
          · rw [eq]
            rfl
        rw [req]
        exact iff_of_true formed.2 fun _ complete => absurd complete incomplete
      · -- The request is read through an inserting operator.
        have req : (s.processVote ctx vote).2.mapTxLockReq =
            s.mapTxLockReq.insert vote.txHash ((s.mapTxLockReq.lookup vote.txHash).getD .null) := by
          rw [same]
          exact (completeLock_spec ctx (s.withVote ctx vote) vote.txHash).1
        rw [req]
        constructor
        · intro requests _ _
          cases before : s.mapTxLockReq.lookup vote.txHash with
          | some tx => exact Or.inl rfl
          | none =>
            rw [before] at requests
            exact Or.inr (requests vote.txHash .null (by simp)).symm
        · intro finds h tx found
          rw [StdMap.lookup_insert_ite] at found
          split at found
          · rename_i own
            cases before : s.mapTxLockReq.lookup vote.txHash with
            | some old =>
              rw [before] at found
              obtain rfl := Option.some.inj found
              rw [own]
              exact formed.2 _ old before
            | none =>
              rw [before] at found
              obtain rfl := Option.some.inj found
              rcases finds handled complete with present | zero
              · rw [before] at present
                cases present
              · rw [own, zero]
                rfl
          · exact formed.2 h tx found

/-- In a run from empty maps the bookkeeping stays well-formed exactly as long as every vote that completes a
lock finds its request. -/
theorem well_formed_iff_requests_found (ops : List Op) :
    (∀ before, before <+: ops → (before.foldl step {}).WellFormed) ↔
      ∀ before op, before ++ [op] <+: ops → (before.foldl step {}).FindsRequest op := by
  have nothing : ∀ h, ({} : SwiftTX).lockAt h = none := fun _ => rfl
  have keyed : ({} : SwiftTX).Keyed := by
    refine ⟨fun h l found => ?_, fun h tx found => ?_, fun h tx found => ?_⟩
    · cases found
    · cases found
    · cases found
  have apart : ({} : SwiftTX).VotesApart := by
    refine ⟨fun h l found => ?_, fun h l found => ?_, fun h l found => ?_, fun h l h' l' found => ?_⟩
    all_goals
      rw [nothing] at found
      cases found
  apply Run.kept_iff_meets (fun s => s.Keyed ∧ s.VotesApart) WellFormed ⟨keyed, apart⟩
  · exact fun s op inv => ⟨step_keyed inv.1 op, step_apart inv.1 inv.2 op⟩
  · exact (wellFormed_iff keyed apart).mpr fun h tx found => by cases found
  · exact fun s op inv formed => step_wellFormed_iff inv.1 inv.2 formed op

def fundingTx : CTransaction := { hash := 1, vin := [], vout := [{ nValue := 200000000, scriptPubKey := [0x51] }] }

def rejectingNode : SwiftContext where
  getTime := 1000
  tipHeight := some 100
  maxValue := 1000
  getInputAge := fun _ => 10
  getTransaction := fun _ => some fundingTx
  acceptToMemoryPool := fun _ => false
  getMasternodeRank := fun _ _ => 1
  checkSignature := fun _ => true

def lockedPayment : CTransaction :=
  { hash := 7, vin := [{ prevout := ⟨1, 0⟩ }],
    vout := [{ nValue := 5, scriptPubKey := [0x76, 0xa9, 0x14] ++ List.replicate 20 0 ++ [0x88, 0xac] }] }

def voteOf (masternode : uint256) : CConsensusVote :=
  { vinMasternode := { prevout := ⟨masternode, 0⟩ }, txHash := 7, nBlockHeight := 94 }

def rejectedThenVoted : List Op :=
  Op.ix rejectingNode lockedPayment :: [1, 2, 3, 4, 5, 6].map fun m => Op.txlvote rejectingNode (voteOf m)

theorem empty_request_after_six_votes : ¬(rejectedThenVoted.foldl step {}).WellFormed := by
  rintro ⟨_, requests⟩
  have stored : (rejectedThenVoted.foldl step {}).mapTxLockReq.lookup 7 = some .null := by decide
  exact absurd (requests 7 .null stored) (by decide)

end SwiftTX

end SchillingCoin
