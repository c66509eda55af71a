import SchillingCoin.Swift.Bookkeeping
import SchillingCoin.Validation.CheckBlock

/-!
The inputs that are locked, and the blocks that are rejected for them.
-/

namespace SchillingCoin

open Checked

/-- The answer of `CheckBlock` to a block that spends a locked input in another transaction. -/
def conflictingTxIx : Reject := .dos 0 "conflicting-tx-ix"

theorem checkOutputs_error (h : checkOutputs network tx cold total l = .error e) : e ≠ conflictingTxIx := by
  induction l generalizing total with
  | nil => cases h
  | cons o rest ih =>
    unfold checkOutputs at h
    simp only at h
    repeat' split at h
    all_goals first | exact ih h | (cases h; decide)

theorem checkDuplicateInputs_error (h : checkDuplicateInputs seen l = .error e) : e ≠ conflictingTxIx := by
  induction l generalizing seen with
  | nil => cases h
  | cons i rest ih =>
    unfold checkDuplicateInputs at h
    split at h
    · cases h
      decide
    · exact ih h

theorem checkTransaction_error (h : checkTransaction checks network tx zerocoin cold = .error conflictingTxIx) : False := by
  unfold checkTransaction at h
  have h := past_refuse (by decide) (past_refuse (by decide) (past_refuse (by decide) h))
  rcases bind_error h with outputs | ⟨_, _, h⟩
  · exact checkOutputs_error outputs rfl
  · rcases bind_error h with duplicates | ⟨_, _, shape⟩
    · exact checkDuplicateInputs_error duplicates rfl
    · unfold checkInputShape at shape
      split at shape
      · exact absurd (refuse_error shape).2 (by decide)
      · exact absurd (refuse_error shape).2 (by decide)

namespace ChainState

variable {block : CBlock} {s : ChainState}

theorem checkBlockShape_error (h : checkBlockShape block = .error conflictingTxIx) : False := by
  unfold checkBlockShape at h
  split at h
  · cases h
  · have h := past_refuse (by decide) (past_refuse (by decide) (past_refuse (by decide) h))
    exact absurd (refuse_error h).2 (by decide)

theorem isBlockPayeeValid_error (h : s.isBlockPayeeValid block nHeight = .error conflictingTxIx) : False := by
  unfold isBlockPayeeValid at h
  simp only at h
  repeat' split at h
  all_goals cases h

theorem checkBlockPayments_error (h : s.checkBlockPayments checks block = .error conflictingTxIx) : False := by
  unfold checkBlockPayments at h
  split at h
  · cases h
  · rcases bind_error (past_refuse (by decide) h) with payee | ⟨_, _, h⟩
    · exact isBlockPayeeValid_error payee
    · cases past_refuse (by decide) h

theorem checkBlock_conflicting (h : s.checkBlock checks block fCheckMerkleRoot = .error conflictingTxIx) :
    ∃ tx ∈ block.vtx, ∃ i ∈ tx.vin, ∃ held, s.mapLockedInputs.lookup i.prevout = some held ∧ held ≠ tx.hash := by
  unfold checkBlock at h
  have h := past_refuse (by decide) (past_refuse (by decide) (past_refuse (by decide) (past_refuse (by decide) h)))
  rcases bind_error h with shape | ⟨_, _, h⟩
  · exact absurd shape fun shape => checkBlockShape_error shape
  rcases bind_error h with conflict | ⟨_, _, h⟩
  · have found := (refuse_error conflict).1
    simp only [Bool.and_eq_true, List.any_eq_true, Option.any_eq_true, bne_iff_ne] at found
    obtain ⟨_, tx, listed, _, i, member, held, locked, other⟩ := found
    exact ⟨tx, listed, i, member, held, locked, other⟩
  simp only at h
  rcases bind_error h with payments | ⟨_, _, h⟩
  · exact absurd payments fun payments => checkBlockPayments_error payments
  rcases bind_error h with transactions | ⟨_, _, h⟩
  · obtain ⟨tx, _, failed⟩ := all_error transactions
    exact absurd failed fun failed => checkTransaction_error failed
  · cases past_refuse (by decide) h

end ChainState

namespace SwiftTX

def HeldComplete (s : SwiftTX) (o : COutPoint) (h : uint256) : Prop :=
  (∃ lock, s.mapTxLocks.lookup h = some lock ∧ SWIFTTX_SIGNATURES_REQUIRED ≤ lock.countSignatures) ∧
    ∃ tx, (s.mapTxLockReq.lookup h = some tx ∨ s.mapTxLockReqRejected.lookup h = some tx) ∧ tx.getHash = h ∧
      o ∈ tx.vin.map CTxIn.prevout

def LockedComplete (s : SwiftTX) : Prop := ∀ o h, s.mapLockedInputs.lookup o = some h → s.HeldComplete o h

variable {s : SwiftTX} {h : uint256} {o : COutPoint} {ctx : SwiftContext} {tx : CTransaction}

theorem complete_iff :
    (∃ lock, s.mapTxLocks.lookup h = some lock ∧ SWIFTTX_SIGNATURES_REQUIRED ≤ lock.countSignatures) ↔
      ∃ lock, s.lockAt h = some lock ∧ SWIFTTX_SIGNATURES_REQUIRED ≤ lock.countSignatures := by
  constructor
  · rintro ⟨lock, found, complete⟩
    exact ⟨lock.body, lockAt_eq_some.mpr ⟨lock, found, rfl⟩, complete⟩
  · rintro ⟨_, held, complete⟩
    obtain ⟨lock, found, rfl⟩ := lockAt_eq_some.mp held
    exact ⟨lock, found, complete⟩

theorem HeldComplete.mono {t : SwiftTX} (held : s.HeldComplete o h)
    (locks : ∀ l, s.lockAt h = some l → ∃ l', t.lockAt h = some l' ∧ l.countSignatures ≤ l'.countSignatures)
    (req : ∀ tx, s.mapTxLockReq.lookup h = some tx → t.mapTxLockReq.lookup h = some tx)
    (rejected : ∀ tx, s.mapTxLockReqRejected.lookup h = some tx → t.mapTxLockReqRejected.lookup h = some tx) :
    t.HeldComplete o h := by
  obtain ⟨complete, tx, known, hash, spends⟩ := held
  obtain ⟨l, found, enough⟩ := complete_iff.mp complete
  obtain ⟨l', found', more⟩ := locks l found
  refine ⟨complete_iff.mpr ⟨l', found', by omega⟩, tx, ?_, hash, spends⟩
  rcases known with asked | refused
  · exact Or.inl (req tx asked)
  · exact Or.inr (rejected tx refused)

/-- The lock of a request that the pool rejects is complete when the request locks an input, and the cleaner
releases every input of a lock that it erases. -/
def LocksOnlyComplete (s : SwiftTX) : Op → Prop
  | .ix ctx tx => ignores ctx = false → s.isNewRequest ctx tx = true → ctx.acceptToMemoryPool tx = false →
    (∃ i ∈ tx.vin, s.mapLockedInputs.lookup i.prevout = none) →
    ∃ lock, (s.createNewLock ctx tx).2.mapTxLocks.lookup tx.hash = some lock ∧
      SWIFTTX_SIGNATURES_REQUIRED ≤ lock.countSignatures
  | .txlvote _ _ => True
  | .clean ctx => ctx.tipHeight.isSome → ∀ o h lock, s.mapLockedInputs.lookup o = some h →
    s.mapTxLocks.lookup h = some lock → Expired ctx lock →
    ∃ k l, s.mapTxLocks.lookup k = some l ∧ DropsInput ctx s k l o

theorem isNewRequest_unknown (new : s.isNewRequest ctx tx = true) :
    s.mapTxLockReq.lookup tx.hash = none ∧ s.mapTxLockReqRejected.lookup tx.hash = none := by
  simp only [isNewRequest, Bool.and_eq_true, Bool.not_eq_true', Bool.or_eq_false_iff, CTransaction.getHash] at new
  exact ⟨by simpa using new.1.1.1, by simpa using new.1.1.2⟩

theorem HeldComplete.requested (held : s.HeldComplete o h)
    (unknown : s.mapTxLockReq.lookup tx.hash = none ∧ s.mapTxLockReqRejected.lookup tx.hash = none) :
    h ≠ tx.hash := by
  rintro rfl
  obtain ⟨_, _, asked | refused, _⟩ := held
  · rw [unknown.1] at asked
    cases asked
  · rw [unknown.2] at refused
    cases refused

theorem Requested.held {t : SwiftTX} (requested : Requested s t tx) (other : h ≠ tx.hash)
    (held : s.HeldComplete o h) : t.HeldComplete o h := by
  refine held.mono (fun l found => ⟨l, (requested.other h other).trans found, Int.le_refl _⟩) (fun tx' asked => ?_) fun tx' refused => ?_
  · rcases requested.req with same | inserted
    · rw [same]
      exact asked
    · rw [inserted, StdMap.lookup_insert_ite, if_neg other]
      exact asked
  · rcases requested.rejected with same | inserted
    · rw [same]
      exact refused
    · rw [inserted, StdMap.lookup_insert_ite, if_neg other]
      exact refused

theorem createNewLock_inputs (ctx : SwiftContext) (s : SwiftTX) (tx : CTransaction) :
    (s.createNewLock ctx tx).2.mapLockedInputs = s.mapLockedInputs := by
  rcases createNewLock_cases ctx s tx with same | ⟨_, _, eq, _⟩
  · rw [same]
  · rw [eq]

theorem processRequest_inputs (new : s.isNewRequest ctx tx = true) :
    (ctx.acceptToMemoryPool tx = true → (s.processRequest ctx tx).2.mapLockedInputs = s.mapLockedInputs) ∧
    (ctx.acceptToMemoryPool tx = false → (s.processRequest ctx tx).2 = (s.createNewLock ctx tx).2.rejectRequest ctx tx) := by
  constructor
  · intro accepted
    rw [processRequest, if_neg (by simp [new]), if_pos accepted]
    simp only
    rcases doConsensusVote_cases ctx (s.createNewLock ctx tx).2 tx (s.createNewLock ctx tx).1 with same | ⟨vote, eq⟩
    · rw [same]
      exact createNewLock_inputs ctx s tx
    · rw [eq]
      exact createNewLock_inputs ctx s tx
  · intro rejected
    rw [processRequest, if_neg (by simp [new])]
    simp [rejected]

theorem ix_locked_iff (locked : s.LockedComplete) (ctx : SwiftContext) (tx : CTransaction) :
    (s.step (.ix ctx tx)).LockedComplete ↔ s.LocksOnlyComplete (.ix ctx tx) := by
  rw [step]
  by_cases ignored : ignores ctx = true
  · rw [if_pos ignored]
    refine iff_of_true locked fun handled => ?_
    rw [handled] at ignored
    cases ignored
  rw [if_neg ignored]
  by_cases new : s.isNewRequest ctx tx = true
  · have unknown := isNewRequest_unknown new
    have requested := processRequest_requested ctx s tx
    obtain ⟨acceptedInputs, rejectedEq⟩ := processRequest_inputs (s := s) new
    cases pool : ctx.acceptToMemoryPool tx with
    | true =>
      refine iff_of_true (fun o h held => ?_) fun _ _ rejected => ?_
      · rw [acceptedInputs pool] at held
        have before := locked o h held
        exact requested.held (before.requested unknown) before
      · rw [pool] at rejected
        cases rejected
    | false =>
      obtain ⟨stored, _, inputs, locks, _⟩ := rejectRequest_spec ctx (s.createNewLock ctx tx).2 tx
      have lookup : ∀ o, (s.processRequest ctx tx).2.mapLockedInputs.lookup o =
          (s.mapLockedInputs.lookup o).or (if o ∈ tx.vin.map CTxIn.prevout then some tx.hash else none) := by
        intro o
        rw [rejectedEq pool, inputs, lockInputs_lookup, createNewLock_inputs]
      have recorded : (s.processRequest ctx tx).2.mapTxLockReqRejected.lookup tx.hash = some tx := by
        rw [rejectedEq pool, stored, StdMap.lookup_insert_ite, if_pos rfl]
      have own : (s.processRequest ctx tx).2.lockAt tx.hash = (s.createNewLock ctx tx).2.lockAt tx.hash := by
        rw [rejectedEq pool, locks]
      constructor
      · intro after _ _ _ free
        obtain ⟨i, member, free⟩ := free
        have held := after i.prevout tx.hash (by rw [lookup, free]; simp [List.mem_map_of_mem member])
        obtain ⟨lock, found, complete⟩ := complete_iff.mp held.1
        exact complete_iff.mpr ⟨lock, own.symm.trans found, complete⟩
      · intro complete o h held
        rw [lookup] at held
        cases before : s.mapLockedInputs.lookup o with
        | some h' =>
          rw [before] at held
          obtain rfl := Option.some.inj held
          have old := locked o h' before
          exact requested.held (old.requested unknown) old
        | none =>
          rw [before, Option.none_or] at held
          split at held
          · rename_i spends
            obtain rfl := Option.some.inj held
            obtain ⟨i, member, rfl⟩ := List.mem_map.mp spends
            obtain ⟨lock, found, enough⟩ :=
              complete_iff.mp (complete (by simpa using ignored) new pool ⟨i, member, before⟩)
            exact ⟨complete_iff.mpr ⟨lock, own.trans found, enough⟩, tx, Or.inr recorded, rfl, spends⟩
          · cases held
  · have same : (s.processRequest ctx tx).2 = s := by
      rw [processRequest, if_pos (by simpa using new)]
    rw [same]
    exact iff_of_true locked fun _ new' => absurd new' new

theorem withVote_grows (found : s.lockAt h = some l) :
    ∃ l', (s.withVote ctx vote).lockAt h = some l' ∧ l.countSignatures ≤ l'.countSignatures := by
  obtain ⟨lock, stored, rfl⟩ := lockAt_eq_some.mp found
  by_cases own : h = vote.txHash
  · refine ⟨(s.votedLock ctx vote).body, lockAt_eq_some.mpr ⟨_, by rw [withVote_lookup, if_pos own], rfl⟩, ?_⟩
    rw [CTransactionLock.countSignatures_body, CTransactionLock.countSignatures_body, votedLock, ← own, stored]
    exact CTransactionLock.countSignatures_addSignature lock vote
  · exact ⟨lock.body, lockAt_eq_some.mpr ⟨lock, by rw [withVote_lookup, if_neg own]; exact stored, rfl⟩, Int.le_refl _⟩

theorem withVote_held {vote : CConsensusVote} (held : s.HeldComplete o h) :
    (s.withVote ctx vote).HeldComplete o h :=
  held.mono (fun _ found => withVote_grows found) (fun _ asked => asked) fun _ refused => refused

theorem completeLock_locked (ctx : SwiftContext) {txHash : uint256} (keyed : s.Keyed)
    (locked : s.LockedComplete)
    (complete : ∃ lock, s.lockAt txHash = some lock ∧ SWIFTTX_SIGNATURES_REQUIRED ≤ lock.countSignatures) :
    (s.completeLock ctx txHash).LockedComplete := by
  obtain ⟨req, rejected, _, locks, inputs⟩ := completeLock_spec ctx s txHash
  have asks : ∀ h tx, s.mapTxLockReq.lookup h = some tx → (s.completeLock ctx txHash).mapTxLockReq.lookup h = some tx := by
    intro h tx asked
    rw [req, StdMap.lookup_insert_ite]
    split
    · rename_i same
      rw [← same, asked]
      rfl
    · exact asked
  have kept : ∀ o h, s.HeldComplete o h → (s.completeLock ctx txHash).HeldComplete o h := by
    intro o h held
    exact held.mono (fun l found => ⟨l, (locks h).trans found, Int.le_refl _⟩) (asks h) fun tx refused => by rw [rejected]; exact refused
  intro o h held
  rcases inputs with same | taken
  · rw [same] at held
    exact kept o h (locked o h held)
  · rw [taken, lockInputs_lookup] at held
    cases before : s.mapLockedInputs.lookup o with
    | some h' =>
      rw [before] at held
      obtain rfl := Option.some.inj held
      exact kept o h' (locked o h' before)
    | none =>
      rw [before, Option.none_or] at held
      split at held
      · rename_i spends
        obtain rfl := Option.some.inj held
        cases asked : s.mapTxLockReq.lookup txHash with
        | none =>
          rw [asked] at spends
          cases spends
        | some tx =>
          rw [asked, Option.getD_some] at spends
          have hash : tx.hash = txHash := by
            rcases keyed.requests txHash tx asked with hash | empty
            · exact hash
            · rw [empty] at spends
              cases spends
          obtain ⟨lock, found, enough⟩ := complete
          exact ⟨complete_iff.mpr ⟨lock, (locks _).trans found, enough⟩, tx, Or.inl (asks _ tx asked), hash, spends⟩
      · cases held

theorem txlvote_locked (keyed : s.Keyed) (locked : s.LockedComplete) (ctx : SwiftContext)
    (vote : CConsensusVote) : (s.step (.txlvote ctx vote)).LockedComplete := by
  rw [step]
  split
  · exact locked
  · rcases processVote_cases ctx s vote with ⟨_, same | ⟨_, same | ⟨unknown, same⟩⟩⟩ | ⟨complete, unknown, same⟩
    · rw [same]
      exact locked
    · rw [same]
      exact locked
    · rw [same]
      exact fun o h held => withVote_held (locked o h held)
    · rw [same]
      refine completeLock_locked ctx (withVote_keyed ctx vote keyed) (fun o h held => withVote_held (locked o h held)) ?_
      exact ⟨(s.votedLock ctx vote).body, lockAt_eq_some.mpr ⟨_, by rw [withVote_lookup, if_pos rfl], rfl⟩, complete.2.2⟩

theorem clean_locked_iff (keyed : s.Keyed) (locked : s.LockedComplete) (ctx : SwiftContext) :
    (s.step (.clean ctx)).LockedComplete ↔ s.LocksOnlyComplete (.clean ctx) := by
  rw [step]
  by_cases tip : ctx.tipHeight.isSome
  · obtain ⟨locks, req, rejected, inputs, _⟩ := cleanTransactionLocksList_spec ctx keyed.locks tip
    constructor
    · intro after _ o h lock held found expired
      by_contra kept
      have still : (s.cleanTransactionLocksList ctx).mapLockedInputs.lookup o = some h :=
        (inputs o h).mpr ⟨held, fun k l found' drops => kept ⟨k, l, found', drops⟩⟩
      obtain ⟨⟨lock', found', _⟩, _⟩ := after o h still
      obtain ⟨before, fresh⟩ := (locks h lock').mp found'
      rw [found] at before
      obtain rfl := Option.some.inj before
      exact fresh expired
    · intro releases o h held
      obtain ⟨before, undropped⟩ := (inputs o h).mp held
      have old := locked o h before
      obtain ⟨⟨lock, found, _⟩, _⟩ := id old
      have fresh : ¬Expired ctx lock := by
        intro expired
        obtain ⟨k, l, found', drops⟩ := releases tip o h lock before found expired
        exact undropped k l found' drops
      have only : ∀ l, s.mapTxLocks.lookup h = some l → ¬Expired ctx l := by
        intro l found' expired
        rw [found] at found'
        obtain rfl := Option.some.inj found'
        exact fresh expired
      refine old.mono (fun l seen => ⟨l, ?_, Int.le_refl _⟩) (fun tx asked => (req h tx).mpr ⟨asked, only⟩) fun tx refused =>
        (rejected h tx).mpr ⟨refused, ?_⟩
      · obtain ⟨l', stored, rfl⟩ := lockAt_eq_some.mp seen
        exact lockAt_eq_some.mpr ⟨l', (locks h l').mpr ⟨stored, only l' stored⟩, rfl⟩
      · rintro k l found' ⟨rfl, expired, _⟩
        exact only l found' expired
  · have none_ : ctx.tipHeight = none := by simpa using tip
    rw [cleanTransactionLocksList, none_]
    exact iff_of_true locked fun present => absurd present tip

/-- Blocks are rejected for a locked input only when a complete lock of another transaction holds it. -/
def RejectsForComplete (s : SwiftTX) : Prop :=
  ∀ (chain : ChainState) checks block fCheckMerkleRoot, chain.mapLockedInputs = s.mapLockedInputs →
    chain.checkBlock checks block fCheckMerkleRoot = .error conflictingTxIx →
    ∃ tx ∈ block.vtx, ∃ i ∈ tx.vin, ∃ h, h ≠ tx.hash ∧ s.mapLockedInputs.lookup i.prevout = some h ∧ s.HeldComplete i.prevout h

theorem LockedComplete.rejects (locked : s.LockedComplete) : s.RejectsForComplete := by
  intro chain checks block fCheckMerkleRoot same rejected
  obtain ⟨tx, listed, i, member, h, held, other⟩ := ChainState.checkBlock_conflicting rejected
  rw [same] at held
  exact ⟨tx, listed, i, member, h, other, held, locked _ h held⟩

/-- In a run from empty maps the locked inputs are held by complete locks, and blocks rejected for these alone,
exactly as long as no rejected request locks an input before its lock is complete and the cleaner releases the
inputs of the locks that it erases. -/
theorem locked_inputs_complete_iff (ops : List Op) :
    (∀ before, before <+: ops →
      (before.foldl step {}).LockedComplete ∧ (before.foldl step {}).RejectsForComplete) ↔
      ∀ before op, before ++ [op] <+: ops → (before.foldl step {}).LocksOnlyComplete op := by
  have keyed : ({} : SwiftTX).Keyed := by
    refine ⟨fun h l found => ?_, fun h tx found => ?_, fun h tx found => ?_⟩
    · cases found
    · cases found
    · cases found
  have exact_ : ∀ s op, Keyed s → LockedComplete s → ((s.step op).LockedComplete ↔ s.LocksOnlyComplete op) := by
    intro s op keyed locked
    cases op with
    | ix ctx tx => exact ix_locked_iff locked ctx tx
    | txlvote ctx vote => exact iff_of_true (txlvote_locked keyed locked ctx vote) trivial
    | clean ctx => exact clean_locked_iff keyed locked ctx
  rw [← Run.kept_iff_meets Keyed LockedComplete keyed (fun s op inv => step_keyed inv op) (fun o h held => by cases held) exact_]
  exact forall_congr' fun before => imp_congr_right fun _ => ⟨And.left, fun locked => ⟨locked, locked.rejects⟩⟩

def spendingBlock : CBlock :=
  { hash := 3, hashPrevBlock := 2, nTime := 0, nBits := 0
    vtx := [{ hash := 10, vin := [{ prevout := .null, scriptSig := [0, 0] }], vout := [{ nValue := 1, scriptPubKey := [0x51] }] },
      { hash := 11, vin := [{ prevout := ⟨1, 0⟩ }], vout := [{ nValue := 1, scriptPubKey := [0x51] }] }] }

def passingChecks : Checks where
  checkBlockHeader := fun _ _ => true
  merkleRootMatches := fun _ => true
  merkleTreeMutated := fun _ => false
  blockSize := fun _ => 1000
  txSize := fun _ => 100
  getLegacySigOpCount := fun _ => 1
  p2shSigOps := fun _ _ => 0
  verifyScript := fun _ _ _ _ => true
  getTransaction := fun _ => none
  publicCoinsValid := fun _ => true
  zerocoinSpent := fun _ => 0

def afterRejection : SwiftTX := step {} (.ix rejectingNode lockedPayment)

def filteringChain : ChainState where
  network := .main
  hashGenesisBlock := 2
  isSporkActive := fun _ => true
  mapLockedInputs := afterRejection.mapLockedInputs

/-- The request locks its input although nobody signed it, and a block that spends the input is rejected. -/
theorem unsigned_request_locks_input :
    ¬afterRejection.LockedComplete ∧
      filteringChain.checkBlock passingChecks spendingBlock true = .error conflictingTxIx := by
  refine ⟨fun locked => ?_, rfl⟩
  obtain ⟨⟨lock, found, complete⟩, _⟩ := locked ⟨1, 0⟩ 7 (by decide)
  have unsigned : (afterRejection.mapTxLocks.lookup 7).map CTransactionLock.countSignatures = some 0 := by decide
  rw [found] at unsigned
  have zero : lock.countSignatures = 0 := Option.some.inj unsigned
  rw [zero] at complete
  exact absurd complete (by decide)

end SwiftTX

end SchillingCoin
