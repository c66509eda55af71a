import SchillingCoin.Swift.Bookkeeping

/-!
What the cleaner leaves of a lock that has expired.
-/

namespace SchillingCoin

namespace SwiftTX

variable {s : SwiftTX} {ctx : SwiftContext}

def GivesBack (s : SwiftTX) (ctx : SwiftContext) (o : COutPoint) : Prop := ∃ k l, s.mapTxLocks.lookup k = some l ∧ DropsInput ctx s k l o

def ForgetsVote (s : SwiftTX) (ctx : SwiftContext) (x : uint256) : Prop := ∃ k l, s.mapTxLocks.lookup k = some l ∧ DropsVote ctx s k l x

/-- After the cleaner nothing names a lock that it erased, and what is held for the other locks is held still. -/
structure Releases (s : SwiftTX) (ctx : SwiftContext) : Prop where
  inputs : ∀ h l, s.mapTxLocks.lookup h = some l → (s.cleanTransactionLocksList ctx).mapTxLocks.lookup h = none →
    ∀ o, (s.cleanTransactionLocksList ctx).mapLockedInputs.lookup o ≠ some h
  others : ∀ h l, s.mapTxLocks.lookup h = some l → ¬Expired ctx l →
    ∀ o, s.mapLockedInputs.lookup o = some h → (s.cleanTransactionLocksList ctx).mapLockedInputs.lookup o = some h
  votes : ∀ h l, s.mapTxLocks.lookup h = some l → (s.cleanTransactionLocksList ctx).mapTxLocks.lookup h = none →
    ∀ x v, (s.cleanTransactionLocksList ctx).mapTxLockVote.lookup x = some v → v.txHash ≠ h
  requests : ∀ h l, s.mapTxLocks.lookup h = some l → (s.cleanTransactionLocksList ctx).mapTxLocks.lookup h = none →
    (s.cleanTransactionLocksList ctx).mapTxLockReq.lookup h = none ∧ (s.cleanTransactionLocksList ctx).mapTxLockReqRejected.lookup h = none

/-- What the cleaner relies on: a rejected request of an expired lock is known as an accepted one too, what is held for an expired lock is an
input of a known request and what is remembered for it a vote of its lock, and no such input is held for another lock. -/
structure Cleanable (s : SwiftTX) (ctx : SwiftContext) : Prop where
  inputs : ∀ h l, s.mapTxLocks.lookup h = some l → Expired ctx l → ∀ o, s.mapLockedInputs.lookup o = some h → s.GivesBack ctx o
  others : ∀ h l, s.mapTxLocks.lookup h = some l → ¬Expired ctx l → ∀ o, s.mapLockedInputs.lookup o = some h → ¬s.GivesBack ctx o
  votes : ∀ h l, s.mapTxLocks.lookup h = some l → Expired ctx l →
    ∀ x v, s.mapTxLockVote.lookup x = some v → v.txHash = h → s.ForgetsVote ctx x
  requests : ∀ h l, s.mapTxLocks.lookup h = some l → Expired ctx l → (s.mapTxLockReqRejected.lookup h).isSome →
    (s.mapTxLockReq.lookup h).isSome

theorem releases_iff (keyed : s.LocksKeyed) (tip : ctx.tipHeight.isSome) : s.Releases ctx ↔ s.Cleanable ctx := by
  obtain ⟨locks, req, rejected, inputs, votes⟩ := cleanTransactionLocksList_spec ctx keyed tip
  have erased {h : uint256} {l : CTransactionLock} (found : s.mapTxLocks.lookup h = some l) :
      (s.cleanTransactionLocksList ctx).mapTxLocks.lookup h = none ↔ Expired ctx l := by
    rw [Option.eq_none_iff_forall_ne_some]
    constructor
    · intro gone
      by_contra kept
      exact gone l ((locks h l).mpr ⟨found, kept⟩)
    · intro expired l' left
      obtain ⟨found', kept⟩ := (locks h l').mp left
      rw [found] at found'
      cases found'
      exact kept expired
  have kept (o : COutPoint) : (∀ k l, s.mapTxLocks.lookup k = some l → ¬DropsInput ctx s k l o) ↔ ¬s.GivesBack ctx o := by
    simp [GivesBack]
  have remembered (x : uint256) : (∀ k l, s.mapTxLocks.lookup k = some l → ¬DropsVote ctx s k l x) ↔ ¬s.ForgetsVote ctx x := by
    simp [ForgetsVote]
  constructor
  · intro releases
    constructor
    · intro h l found expired o held
      by_contra notBack
      exact releases.inputs h l found ((erased found).mpr expired) o ((inputs o h).mpr ⟨held, (kept o).mpr notBack⟩)
    · intro h l found lasts o held
      have still := releases.others h l found lasts o held
      exact (kept o).mp ((inputs o h).mp still).2
    · intro h l found expired x v known same
      by_contra notForgotten
      exact releases.votes h l found ((erased found).mpr expired) x v ((votes x v).mpr ⟨known, (remembered x).mpr notForgotten⟩) same
    · intro h l found expired refused
      obtain ⟨tx, refused⟩ := Option.isSome_iff_exists.mp refused
      have gone := (releases.requests h l found ((erased found).mpr expired)).2
      by_contra unknown
      have left := (rejected h tx).mpr ⟨refused, fun k l' _ drops => unknown (by
        obtain ⟨rfl, _, tx', present⟩ := drops
        exact Option.isSome_iff_exists.mpr ⟨tx', present⟩)⟩
      rw [gone] at left
      cases left
  · intro cleanable
    constructor
    · intro h l found gone o left
      obtain ⟨held, notDropped⟩ := (inputs o h).mp left
      exact (kept o).mp notDropped (cleanable.inputs h l found ((erased found).mp gone) o held)
    · intro h l found lasts o held
      exact (inputs o h).mpr ⟨held, (kept o).mpr (cleanable.others h l found lasts o held)⟩
    · intro h l found gone x v left same
      obtain ⟨known, notDropped⟩ := (votes x v).mp left
      exact (remembered x).mp notDropped (cleanable.votes h l found ((erased found).mp gone) x v known same)
    · intro h l found gone
      have expired := (erased found).mp gone
      constructor
      · rw [Option.eq_none_iff_forall_ne_some]
        intro tx left
        exact ((req h tx).mp left).2 l found expired
      · rw [Option.eq_none_iff_forall_ne_some]
        intro tx left
        obtain ⟨refused, notDropped⟩ := (rejected h tx).mp left
        obtain ⟨tx', present⟩ := Option.isSome_iff_exists.mp (cleanable.requests h l found expired (Option.isSome_iff_exists.mpr ⟨tx, refused⟩))
        exact notDropped h l found ⟨rfl, expired, tx', present⟩

theorem keyed_run (ops : List Op) : (ops.foldl step {}).Keyed := by
  have kept (s : SwiftTX) (keyed : s.Keyed) : (ops.foldl step s).Keyed := by
    induction ops generalizing s with
    | nil => exact keyed
    | cons op ops ih => exact ih (s.step op) (step_keyed keyed op)
  refine kept {} ⟨fun h l found => ?_, fun h tx found => ?_, fun h tx found => ?_⟩
  · cases found
  · cases found
  · cases found

/-- In every state that messages and cleanings lead to, the cleaner releases what the expired locks held exactly when they are all cleanable. -/
theorem cleaner_releases_iff (ops : List Op) (ctx : SwiftContext) :
    (ops.foldl step {}).Releases ctx ↔ (ctx.tipHeight.isSome → (ops.foldl step {}).Cleanable ctx) := by
  by_cases tip : ctx.tipHeight.isSome
  · rw [releases_iff (keyed_run ops).locks tip]
    exact ⟨fun cleanable _ => cleanable, fun cleanable => cleanable tip⟩
  · have idle : (ops.foldl step {}).cleanTransactionLocksList ctx = ops.foldl step {} := by
      rw [cleanTransactionLocksList, show ctx.tipHeight = none by simpa using tip]
    refine iff_of_true ?_ fun present => absurd present tip
    have lasts {h : uint256} {l : CTransactionLock} (found : (ops.foldl step {}).mapTxLocks.lookup h = some l)
        (gone : ((ops.foldl step {}).cleanTransactionLocksList ctx).mapTxLocks.lookup h = none) : False := by
      rw [idle, found] at gone
      cases gone
    constructor
    · exact fun h l found gone => (lasts found gone).elim
    · intro h l _ _ o held
      rw [idle]
      exact held
    · exact fun h l found gone => (lasts found gone).elim
    · exact fun h l found gone => (lasts found gone).elim

def laterNode : SwiftContext := { rejectingNode with getTime := 5000 }

/-- The lock of a request that the pool rejected expires: its input stays locked and the request stays rejected, for a lock that is gone. -/
theorem rejected_request_left_behind :
    ¬(([.ix rejectingNode lockedPayment] : List Op).foldl step {}).Releases laterNode ∧
      (([.ix rejectingNode lockedPayment, .clean laterNode] : List Op).foldl step {}).mapTxLocks.lookup 7 = none ∧
      (([.ix rejectingNode lockedPayment, .clean laterNode] : List Op).foldl step {}).mapLockedInputs.lookup ⟨1, 0⟩ = some 7 ∧
      (([.ix rejectingNode lockedPayment, .clean laterNode] : List Op).foldl step {}).mapTxLockReqRejected.lookup 7 = some lockedPayment := by
  refine ⟨fun releases => ?_, by decide, by decide, by decide⟩
  have found : (([.ix rejectingNode lockedPayment] : List Op).foldl step {}).mapTxLocks.lookup 7 = some (.new 94 7 1000) := by decide
  exact releases.inputs 7 _ found (by decide) ⟨1, 0⟩ (by decide)

end SwiftTX

end SchillingCoin
