import SchillingCoin.Lib.Run
import SchillingCoin.Swift.SwiftTX

/-!
What each step does to the maps of the transaction locks, and the well-formedness of the bookkeeping: the
votes of a lock, the hashes that requests and locks are stored under.
-/

namespace SchillingCoin

namespace CTransactionLock

variable (l : CTransactionLock)

def body : CTransactionLock := { l with nExpiration := 0 }

theorem countSignatures_body : l.body.countSignatures = l.countSignatures := rfl

theorem countSignatures_addSignature (v : CConsensusVote) : l.countSignatures ≤ (l.addSignature v).countSignatures := by
  have more : l.vecConsensusVotes.countP (fun u => u.nBlockHeight == l.nBlockHeight) ≤
      (l.vecConsensusVotes ++ [v]).countP fun u => u.nBlockHeight == l.nBlockHeight := by
    rw [List.countP_append]
    omega
  unfold countSignatures addSignature
  split
  · exact Int.le_refl _
  · exact Int.ofNat_le.mpr more

end CTransactionLock

namespace SwiftTX

variable (s : SwiftTX) (ctx : SwiftContext) (tx : CTransaction)

def lockAt (h : uint256) : Option CTransactionLock := (s.mapTxLocks.lookup h).map CTransactionLock.body

structure SameButExpiry (s t : SwiftTX) : Prop where
  req : t.mapTxLockReq = s.mapTxLockReq
  rejected : t.mapTxLockReqRejected = s.mapTxLockReqRejected
  votes : t.mapTxLockVote = s.mapTxLockVote
  inputs : t.mapLockedInputs = s.mapLockedInputs
  locks : ∀ h, t.lockAt h = s.lockAt h

theorem SameButExpiry.trans {s t u : SwiftTX} (st : SameButExpiry s t) (tu : SameButExpiry t u) : SameButExpiry s u where
  req := tu.req.trans st.req
  rejected := tu.rejected.trans st.rejected
  votes := tu.votes.trans st.votes
  inputs := tu.inputs.trans st.inputs
  locks h := (tu.locks h).trans (st.locks h)

theorem expire_same (hash : uint256) (time : Int) : SameButExpiry s (s.expire hash time) := by
  unfold expire
  cases found : s.mapTxLocks.lookup hash with
  | none => exact ⟨rfl, rfl, rfl, rfl, fun _ => rfl⟩
  | some lock =>
    refine ⟨rfl, rfl, rfl, rfl, fun h => ?_⟩
    simp only [lockAt, StdMap.lookup_insert_ite]
    split
    · rename_i same
      rw [same, found]
      rfl
    · rfl

theorem checkForConflictingLocks_same (s : SwiftTX) (tx : CTransaction) :
    SameButExpiry s (s.checkForConflictingLocks ctx tx).2 := by
  unfold checkForConflictingLocks
  split
  · exact ⟨rfl, rfl, rfl, rfl, fun _ => rfl⟩
  · exact (expire_same s _ _).trans (expire_same _ _ _)

theorem lockInputs_lookup (hash : uint256) (o : COutPoint) :
    (s.lockInputs tx hash).mapLockedInputs.lookup o =
      (s.mapLockedInputs.lookup o).or (if o ∈ tx.vin.map CTxIn.prevout then some hash else none) :=
  StdMap.lookup_foldl_insertNew CTxIn.prevout hash tx.vin s.mapLockedInputs o

theorem createNewLock_cases (s : SwiftTX) (tx : CTransaction) :
    (s.createNewLock ctx tx).2 = s ∨ ∃ nBlockHeight lock,
      (s.createNewLock ctx tx).2 = { s with mapTxLocks := s.mapTxLocks.insert tx.hash lock } ∧
        ((s.mapTxLocks.lookup tx.hash = none ∧ lock = .new nBlockHeight tx.hash ctx.getTime) ∨
          ∃ old, s.mapTxLocks.lookup tx.hash = some old ∧ lock = { old with nBlockHeight }) := by
  unfold createNewLock
  split
  · exact Or.inl rfl
  · refine Or.inr ⟨ctx.tipHeight.getD 0 - (tx.vin.head?.map ctx.getInputAge).getD 0 + 4, _, rfl, ?_⟩
    simp only [CTransaction.getHash]
    cases found : s.mapTxLocks.lookup tx.hash with
    | none => exact Or.inl ⟨rfl, rfl⟩
    | some old => exact Or.inr ⟨old, rfl, rfl⟩

theorem doConsensusVote_cases (s : SwiftTX) (tx : CTransaction) (nBlockHeight : Int) :
    s.doConsensusVote ctx tx nBlockHeight = s ∨
      ∃ vote, s.doConsensusVote ctx tx nBlockHeight = { s with mapTxLockVote := s.mapTxLockVote.insert vote.getHash vote } := by
  unfold doConsensusVote
  split
  · exact Or.inl rfl
  · simp only
    split
    · exact Or.inl rfl
    · split
      · exact Or.inl rfl
      · split
        · exact Or.inl rfl
        · exact Or.inr ⟨_, rfl⟩

/-- What becomes of a request that the pool rejects: it is recorded, its free inputs are locked, and it
counts as a request when its lock is complete and conflicts with no other. -/
theorem rejectRequest_spec (s : SwiftTX) (tx : CTransaction) :
    (s.rejectRequest ctx tx).mapTxLockReqRejected = s.mapTxLockReqRejected.insert tx.hash tx ∧
    (s.rejectRequest ctx tx).mapTxLockVote = s.mapTxLockVote ∧
    (s.rejectRequest ctx tx).mapLockedInputs = (s.lockInputs tx tx.hash).mapLockedInputs ∧
    (∀ h, (s.rejectRequest ctx tx).lockAt h = s.lockAt h) ∧
    ((s.rejectRequest ctx tx).mapTxLockReq = s.mapTxLockReq ∨
      (s.rejectRequest ctx tx).mapTxLockReq = s.mapTxLockReq.insert tx.hash tx) := by
  let held := ({ s with mapTxLockReqRejected := s.mapTxLockReqRejected.insert tx.hash tx } : SwiftTX).lockInputs tx tx.hash
  have same := checkForConflictingLocks_same ctx held tx
  have cases_ : s.rejectRequest ctx tx = held ∨ s.rejectRequest ctx tx = (held.checkForConflictingLocks ctx tx).2 ∨
      s.rejectRequest ctx tx = { (held.checkForConflictingLocks ctx tx).2 with
        mapTxLockReq := (held.checkForConflictingLocks ctx tx).2.mapTxLockReq.insert tx.hash tx } := by
    unfold rejectRequest
    simp only
    split
    · exact Or.inl rfl
    · split
      · split
        · exact Or.inr (Or.inl rfl)
        · exact Or.inr (Or.inr rfl)
      · exact Or.inl rfl
  rcases cases_ with eq | eq | eq
  · rw [eq]
    exact ⟨rfl, rfl, rfl, fun _ => rfl, Or.inl rfl⟩
  · rw [eq]
    exact ⟨same.rejected, same.votes, same.inputs, same.locks, Or.inl same.req⟩
  · rw [eq]
    refine ⟨same.rejected, same.votes, same.inputs, same.locks, Or.inr ?_⟩
    simp only [same.req]
    rfl

/-- What becomes of a lock that is complete: the request under its hash is the one there was, else an empty
transaction, and its inputs may be locked. -/
theorem completeLock_spec (s : SwiftTX) (txHash : uint256) :
    (s.completeLock ctx txHash).mapTxLockReq =
      s.mapTxLockReq.insert txHash ((s.mapTxLockReq.lookup txHash).getD .null) ∧
    (s.completeLock ctx txHash).mapTxLockReqRejected = s.mapTxLockReqRejected ∧
    (s.completeLock ctx txHash).mapTxLockVote = s.mapTxLockVote ∧
    (∀ h, (s.completeLock ctx txHash).lockAt h = s.lockAt h) ∧
    ((s.completeLock ctx txHash).mapLockedInputs = s.mapLockedInputs ∨
      (s.completeLock ctx txHash).mapLockedInputs =
        (s.lockInputs ((s.mapTxLockReq.lookup txHash).getD .null) txHash).mapLockedInputs) := by
  let tx := (s.mapTxLockReq.lookup txHash).getD .null
  let asked : SwiftTX := { s with mapTxLockReq := s.mapTxLockReq.insert txHash tx }
  have same := checkForConflictingLocks_same ctx asked tx
  by_cases conflict : (asked.checkForConflictingLocks ctx tx).1 = true
  · have eq : s.completeLock ctx txHash = (asked.checkForConflictingLocks ctx tx).2 := if_pos conflict
    rw [eq]
    exact ⟨same.req, same.rejected, same.votes, same.locks, Or.inl same.inputs⟩
  · have eq : s.completeLock ctx txHash = (asked.checkForConflictingLocks ctx tx).2.lockInputs tx txHash := if_neg conflict
    rw [eq]
    refine ⟨same.req, same.rejected, same.votes, same.locks, Or.inr ?_⟩
    simp only [lockInputs, same.inputs]
    rfl

theorem limitUnknownVotes_maps (s : SwiftTX) (vote : CConsensusVote) :
    ∃ unknown, (s.limitUnknownVotes ctx vote).2 = { s with mapUnknownVotes := unknown } := by
  unfold limitUnknownVotes
  simp only
  split
  · exact ⟨_, rfl⟩
  · split
    · exact ⟨_, rfl⟩
    · exact ⟨_, rfl⟩

/-- A request leaves the locks of other transactions alone and keeps the votes of its own. It is only recorded
under its own hash. -/
structure Requested (s t : SwiftTX) (tx : CTransaction) : Prop where
  other : ∀ h, h ≠ tx.hash → t.lockAt h = s.lockAt h
  own : ∀ l, t.lockAt tx.hash = some l →
    (l.txHash = tx.hash ∧ l.vecConsensusVotes = []) ∨
      ∃ old, s.lockAt tx.hash = some old ∧ l.txHash = old.txHash ∧ l.vecConsensusVotes = old.vecConsensusVotes
  req : t.mapTxLockReq = s.mapTxLockReq ∨ t.mapTxLockReq = s.mapTxLockReq.insert tx.hash tx
  rejected : t.mapTxLockReqRejected = s.mapTxLockReqRejected ∨
    t.mapTxLockReqRejected = s.mapTxLockReqRejected.insert tx.hash tx
  votes : ∀ x, (s.mapTxLockVote.lookup x).isSome → (t.mapTxLockVote.lookup x).isSome

theorem createNewLock_requested (s : SwiftTX) (tx : CTransaction) : Requested s (s.createNewLock ctx tx).2 tx := by
  rcases createNewLock_cases ctx s tx with same | ⟨nBlockHeight, lock, eq, which⟩
  · rw [same]
    exact ⟨fun _ _ => rfl, fun l found => Or.inr ⟨l, found, rfl, rfl⟩, Or.inl rfl, Or.inl rfl, fun _ seen => seen⟩
  · rw [eq]
    refine ⟨fun h other => ?_, fun l found => ?_, Or.inl rfl, Or.inl rfl, fun _ seen => seen⟩
    · simp only [lockAt, StdMap.lookup_insert_ite, if_neg other]
    · simp only [lockAt, StdMap.lookup_insert_ite, if_true, Option.map_some, Option.some.injEq] at found
      rcases which with ⟨_, rfl⟩ | ⟨old, before, rfl⟩
      · rw [← found]
        exact Or.inl ⟨rfl, rfl⟩
      · rw [← found]
        exact Or.inr ⟨old.body, by rw [lockAt, before]; rfl, rfl, rfl⟩

theorem processRequest_requested (s : SwiftTX) (tx : CTransaction) : Requested s (s.processRequest ctx tx).2 tx := by
  have created := createNewLock_requested ctx s tx
  unfold processRequest
  split
  · exact ⟨fun _ _ => rfl, fun l found => Or.inr ⟨l, found, rfl, rfl⟩, Or.inl rfl, Or.inl rfl, fun _ seen => seen⟩
  · simp only
    split
    · -- Accepted by the pool.
      have req : (s.createNewLock ctx tx).2.mapTxLockReq = s.mapTxLockReq := by
        rcases createNewLock_cases ctx s tx with same | ⟨_, _, eq, _⟩
        · rw [same]
        · rw [eq]
      rcases doConsensusVote_cases ctx (s.createNewLock ctx tx).2 tx (s.createNewLock ctx tx).1 with same | ⟨vote, eq⟩
      · simp only [same, req]
        exact ⟨created.other, created.own, Or.inr rfl, created.rejected, created.votes⟩
      · simp only [eq, req]
        refine ⟨created.other, created.own, Or.inr rfl, created.rejected, fun x seen => ?_⟩
        rw [StdMap.lookup_insert_ite]
        split
        · rfl
        · exact created.votes x seen
    · -- Rejected by the pool.
      have before : (s.createNewLock ctx tx).2.mapTxLockReq = s.mapTxLockReq ∧
          (s.createNewLock ctx tx).2.mapTxLockReqRejected = s.mapTxLockReqRejected := by
        rcases createNewLock_cases ctx s tx with same | ⟨_, _, eq, _⟩
        · rw [same]
          exact ⟨rfl, rfl⟩
        · rw [eq]
          exact ⟨rfl, rfl⟩
      obtain ⟨rejected, votes, _, locks, req⟩ := rejectRequest_spec ctx (s.createNewLock ctx tx).2 tx
      rw [before.1] at req
      rw [before.2] at rejected
      refine ⟨fun h other => (locks h).trans (created.other h other), fun l found => created.own l ((locks _).symm.trans found),
        req, Or.inr rejected, fun x seen => ?_⟩
      rw [votes]
      exact created.votes x seen

def withVote (s : SwiftTX) (vote : CConsensusVote) : SwiftTX :=
  { s with
    mapTxLockVote := s.mapTxLockVote.insert vote.getHash vote
    mapTxLocks := s.mapTxLocks.insert vote.txHash (s.votedLock ctx vote) }

def Completes (s : SwiftTX) (vote : CConsensusVote) : Prop :=
  s.mapTxLockVote.lookup vote.getHash = none ∧ voteRefused ctx vote = false ∧
    SWIFTTX_SIGNATURES_REQUIRED ≤ (s.votedLock ctx vote).countSignatures

theorem processVote_cases (s : SwiftTX) (vote : CConsensusVote) :
    (¬s.Completes ctx vote ∧
      ((s.processVote ctx vote).2 = s ∨ s.mapTxLockVote.lookup vote.getHash = none ∧
        ((s.processVote ctx vote).2 = { s with mapTxLockVote := s.mapTxLockVote.insert vote.getHash vote } ∨
          ∃ unknown, (s.processVote ctx vote).2 = { s.withVote ctx vote with mapUnknownVotes := unknown }))) ∨
    (s.Completes ctx vote ∧
      ∃ unknown, (s.processVote ctx vote).2 = { (s.withVote ctx vote).completeLock ctx vote.txHash with mapUnknownVotes := unknown }) := by
  unfold processVote
  by_cases seen : (s.mapTxLockVote.lookup vote.getHash).isSome
  · rw [if_pos seen]
    refine Or.inl ⟨?_, Or.inl rfl⟩
    rintro ⟨fresh, _, _⟩
    rw [fresh] at seen
    cases seen
  · rw [if_neg seen]
    have fresh : s.mapTxLockVote.lookup vote.getHash = none := by simpa using seen
    simp only [processConsensusVote]
    by_cases refused : voteRefused ctx vote = true
    · refine Or.inl ⟨?_, Or.inr ⟨fresh, Or.inl ?_⟩⟩
      · rintro ⟨_, passed, _⟩
        rw [refused] at passed
        cases passed
      · rw [if_pos refused]
        rfl
    · rw [if_neg refused]
      by_cases complete : (s.votedLock ctx vote).countSignatures ≥ SWIFTTX_SIGNATURES_REQUIRED
      · refine Or.inr ⟨⟨fresh, by simpa using refused, complete⟩, ?_⟩
        obtain ⟨unknown, eq⟩ := limitUnknownVotes_maps ctx ((s.withVote ctx vote).completeLock ctx vote.txHash) vote
        refine ⟨unknown, ?_⟩
        rw [← eq]
        simp only [if_true]
        exact congrArg (fun t => (limitUnknownVotes ctx t vote).2) (if_pos complete)
      · refine Or.inl ⟨fun h => complete h.2.2, Or.inr ⟨fresh, Or.inr ?_⟩⟩
        obtain ⟨unknown, eq⟩ := limitUnknownVotes_maps ctx (s.withVote ctx vote) vote
        refine ⟨unknown, ?_⟩
        rw [← eq]
        simp only [if_true]
        exact congrArg (fun t => (limitUnknownVotes ctx t vote).2) (if_neg complete)

section Cleaner

variable (ctx : SwiftContext)

variable (lock : CTransactionLock) (s : SwiftTX) (key : uint256)

def Expired : Prop := ctx.getTime > lock.nExpiration

def DropsKey (_ : SwiftTX) (key : uint256) (lock : CTransactionLock) (h : uint256) : Prop := h = key ∧ Expired ctx lock

def DropsRejected (lock : CTransactionLock) (h : uint256) : Prop :=
  h = key ∧ Expired ctx lock ∧ ∃ tx, s.mapTxLockReq.lookup key = some tx

def DropsInput (lock : CTransactionLock) (o : COutPoint) : Prop :=
  Expired ctx lock ∧ ∃ tx, s.mapTxLockReq.lookup key = some tx ∧ o ∈ tx.vin.map CTxIn.prevout

def DropsVote (lock : CTransactionLock) (x : uint256) : Prop :=
  Expired ctx lock ∧ (∃ tx, s.mapTxLockReq.lookup key = some tx) ∧ x ∈ lock.vecConsensusVotes.map CConsensusVote.getHash

variable {ctx} {s : SwiftTX} {key : uint256} {lock : CTransactionLock}

theorem cleanLock_kept (kept : ¬Expired ctx lock) : s.cleanLock ctx key lock = s := if_neg kept

theorem cleanLock_locks (h : uint256) (l : CTransactionLock) :
    (s.cleanLock ctx key lock).mapTxLocks.lookup h = some l ↔ s.mapTxLocks.lookup h = some l ∧ ¬DropsKey ctx s key lock h := by
  by_cases expired : Expired ctx lock
  · have locks : (s.cleanLock ctx key lock).mapTxLocks = s.mapTxLocks.erase key := by
      rw [cleanLock, if_pos (show ctx.getTime > lock.nExpiration from expired)]
      simp only
      split <;> rfl
    rw [locks, StdMap.lookup_erase_ite]
    by_cases same : h = key <;> simp [DropsKey, same, expired]
  · rw [cleanLock_kept expired]
    simp [DropsKey, expired]

section

variable (keyed : lock.txHash = key)

include keyed

theorem cleanLock_absent (expired : Expired ctx lock) (absent : s.mapTxLockReq.lookup key = none) :
    s.cleanLock ctx key lock = { s with mapTxLocks := s.mapTxLocks.erase key } := by
  subst keyed
  rw [cleanLock, if_pos (show ctx.getTime > lock.nExpiration from expired)]
  simp only [absent]

theorem cleanLock_present (expired : Expired ctx lock) {tx : CTransaction} (present : s.mapTxLockReq.lookup key = some tx) :
    s.cleanLock ctx key lock = { s with
      mapLockedInputs := tx.vin.foldl (fun locked (i : CTxIn) => locked.erase i.prevout) s.mapLockedInputs
      mapTxLockReq := s.mapTxLockReq.erase key
      mapTxLockReqRejected := s.mapTxLockReqRejected.erase key
      mapTxLockVote := lock.vecConsensusVotes.foldl (fun votes (v : CConsensusVote) => votes.erase v.getHash) s.mapTxLockVote
      mapTxLocks := s.mapTxLocks.erase key } := by
  subst keyed
  rw [cleanLock, if_pos (show ctx.getTime > lock.nExpiration from expired)]
  simp only [present]

theorem cleanLock_req (h : uint256) (tx : CTransaction) :
    (s.cleanLock ctx key lock).mapTxLockReq.lookup h = some tx ↔
      s.mapTxLockReq.lookup h = some tx ∧ ¬DropsKey ctx s key lock h := by
  by_cases expired : Expired ctx lock
  · cases present : s.mapTxLockReq.lookup key with
    | none =>
      rw [cleanLock_absent keyed expired present]
      refine ⟨fun found => ⟨found, ?_⟩, And.left⟩
      rintro ⟨rfl, _⟩
      rw [present] at found
      cases found
    | some own =>
      rw [cleanLock_present keyed expired present]
      simp only [StdMap.lookup_erase_ite]
      by_cases same : h = key <;> simp [DropsKey, same, expired]
  · rw [cleanLock_kept expired]
    simp [DropsKey, expired]

theorem cleanLock_apart (other : k ≠ key) (tx : CTransaction) :
    (s.cleanLock ctx key lock).mapTxLockReq.lookup k = some tx ↔ s.mapTxLockReq.lookup k = some tx := by
  rw [cleanLock_req keyed]
  simp [DropsKey, other]

theorem cleanLock_rejected (h : uint256) (tx : CTransaction) :
    (s.cleanLock ctx key lock).mapTxLockReqRejected.lookup h = some tx ↔
      s.mapTxLockReqRejected.lookup h = some tx ∧ ¬DropsRejected ctx s key lock h := by
  by_cases expired : Expired ctx lock
  · cases present : s.mapTxLockReq.lookup key with
    | none =>
      rw [cleanLock_absent keyed expired present]
      simp [DropsRejected, present]
    | some own =>
      rw [cleanLock_present keyed expired present]
      simp only [StdMap.lookup_erase_ite]
      by_cases same : h = key <;> simp [DropsRejected, same, expired, present]
  · rw [cleanLock_kept expired]
    simp [DropsRejected, expired]

theorem cleanLock_inputs (o : COutPoint) (h : uint256) :
    (s.cleanLock ctx key lock).mapLockedInputs.lookup o = some h ↔
      s.mapLockedInputs.lookup o = some h ∧ ¬DropsInput ctx s key lock o := by
  by_cases expired : Expired ctx lock
  · cases present : s.mapTxLockReq.lookup key with
    | none =>
      rw [cleanLock_absent keyed expired present]
      simp [DropsInput, present]
    | some own =>
      rw [cleanLock_present keyed expired present]
      simp only
      rw [StdMap.lookup_foldl_erase CTxIn.prevout]
      simp [DropsInput, expired, present]
  · rw [cleanLock_kept expired]
    simp [DropsInput, expired]

theorem cleanLock_votes (x : uint256) (v : CConsensusVote) :
    (s.cleanLock ctx key lock).mapTxLockVote.lookup x = some v ↔
      s.mapTxLockVote.lookup x = some v ∧ ¬DropsVote ctx s key lock x := by
  by_cases expired : Expired ctx lock
  · cases present : s.mapTxLockReq.lookup key with
    | none =>
      rw [cleanLock_absent keyed expired present]
      simp [DropsVote, present]
    | some own =>
      rw [cleanLock_present keyed expired present]
      simp only
      rw [StdMap.lookup_foldl_erase CConsensusVote.getHash]
      simp [DropsVote, expired, present]
  · rw [cleanLock_kept expired]
    simp [DropsVote, expired]

end

def LocksKeyed (s : SwiftTX) : Prop := ∀ h l, s.mapTxLocks.lookup h = some l → l.txHash = h

variable (ctx)

theorem cleanTransactionLocksList_spec (keyed : s.LocksKeyed) (tip : ctx.tipHeight.isSome) :
    (∀ h l, (s.cleanTransactionLocksList ctx).mapTxLocks.lookup h = some l ↔
      s.mapTxLocks.lookup h = some l ∧ ¬Expired ctx l) ∧
    (∀ h tx, (s.cleanTransactionLocksList ctx).mapTxLockReq.lookup h = some tx ↔
      s.mapTxLockReq.lookup h = some tx ∧ ∀ l, s.mapTxLocks.lookup h = some l → ¬Expired ctx l) ∧
    (∀ h tx, (s.cleanTransactionLocksList ctx).mapTxLockReqRejected.lookup h = some tx ↔
      s.mapTxLockReqRejected.lookup h = some tx ∧ ∀ k l, s.mapTxLocks.lookup k = some l → ¬DropsRejected ctx s k l h) ∧
    (∀ o h, (s.cleanTransactionLocksList ctx).mapLockedInputs.lookup o = some h ↔
      s.mapLockedInputs.lookup o = some h ∧ ∀ k l, s.mapTxLocks.lookup k = some l → ¬DropsInput ctx s k l o) ∧
    (∀ x v, (s.cleanTransactionLocksList ctx).mapTxLockVote.lookup x = some v ↔
      s.mapTxLockVote.lookup x = some v ∧ ∀ k l, s.mapTxLocks.lookup k = some l → ¬DropsVote ctx s k l x) := by
  obtain ⟨height, at_⟩ := Option.isSome_iff_exists.mp tip
  unfold cleanTransactionLocksList
  rw [at_]
  refine ⟨fun h l => ?_, fun h tx => ?_, fun h tx => ?_, fun o h => ?_, fun x v => ?_⟩
  · rw [StdMap.foldl_drops (cleanLock ctx) (fun t h => t.mapTxLocks.lookup h) (DropsKey ctx) s.mapTxLocks
      (fun k l _ t h b => cleanLock_locks h b) (fun k l _ t k' l' x _ => Iff.rfl)]
    refine and_congr_right fun found => ⟨fun kept expired => kept h l found ⟨rfl, expired⟩, ?_⟩
    rintro kept k l' found' ⟨rfl, expired⟩
    rw [found] at found'
    obtain rfl := Option.some.inj found'
    exact kept expired
  · rw [StdMap.foldl_drops (cleanLock ctx) (fun t h => t.mapTxLockReq.lookup h) (DropsKey ctx) s.mapTxLocks
      (fun k l found t h b => cleanLock_req (keyed k l found) h b) (fun k l _ t k' l' x _ => Iff.rfl)]
    refine and_congr_right fun _ => ⟨fun kept l found expired => kept h l found ⟨rfl, expired⟩, ?_⟩
    rintro kept k l found ⟨rfl, expired⟩
    exact kept l found expired
  · exact StdMap.foldl_drops (cleanLock ctx) (fun t h => t.mapTxLockReqRejected.lookup h) (DropsRejected ctx) s.mapTxLocks
      (fun k l found t h b => cleanLock_rejected (keyed k l found) h b)
      (fun k l found t k' l' x other => by simp only [DropsRejected, cleanLock_apart (keyed k l found) other]) s h tx
  · exact StdMap.foldl_drops (cleanLock ctx) (fun t o => t.mapLockedInputs.lookup o) (DropsInput ctx) s.mapTxLocks
      (fun k l found t o b => cleanLock_inputs (keyed k l found) o b)
      (fun k l found t k' l' x other => by simp only [DropsInput, cleanLock_apart (keyed k l found) other]) s o h
  · exact StdMap.foldl_drops (cleanLock ctx) (fun t x => t.mapTxLockVote.lookup x) (DropsVote ctx) s.mapTxLocks
      (fun k l found t x b => cleanLock_votes (keyed k l found) x b)
      (fun k l found t k' l' x other => by simp only [DropsVote, cleanLock_apart (keyed k l found) other]) s x v

end Cleaner

end SwiftTX

end SchillingCoin
