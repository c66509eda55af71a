import SchillingCoin.Lib.Run
import SchillingCoin.Coins.ViewCache

/-!
The best block of a stack of coins caches, after `GetBestBlock` and `SetBestBlock` in `coins.cpp`. A cache keeps
the hash it was given or has asked for, and the null hash stands for one it has not asked for yet.
-/

namespace SchillingCoin

inductive TipOp where
  | getBestBlock
  | setBestBlock (hashBlock : uint256)
  | coins (op : CoinsOp)

inductive TipAnswer where
  | bestBlock (hashBlock : uint256)
  | coins (answer : CoinsAnswer)
  | done

namespace CoinsStack

/-- `GetBestBlock` of the topmost view. A cache that has not asked yet asks the view below and remembers. -/
def fetchBestBlock (base : CCoinsViewDB) : List CCoinsViewCache → uint256 × List CCoinsViewCache
  | [] => (base.hashBestChain, [])
  | cache :: parents =>
    if cache.hashBlock = 0 then
      let below := fetchBestBlock base parents
      (below.1, { cache with hashBlock := below.1 } :: below.2)
    else (cache.hashBlock, cache :: parents)

variable (s : CoinsStack)

def getBestBlock : uint256 × CoinsStack :=
  let found := fetchBestBlock s.base s.caches
  (found.1, { s with caches := found.2 })

def setBestBlock (hashBlock : uint256) : CoinsStack :=
  match s.caches with
  | [] => s
  | cache :: parents => { s with caches := { cache with hashBlock } :: parents }

def tipStep (op : TipOp) : Option (TipAnswer × CoinsStack) :=
  match op with
  | .getBestBlock => let found := s.getBestBlock; some (.bestBlock found.1, found.2)
  | .setBestBlock hashBlock => some (.done, s.setBestBlock hashBlock)
  | .coins op => (s.step op).map fun r => (.coins r.1, r.2)

def bestBlock : uint256 := s.getBestBlock.1

def below : CoinsStack := { s with caches := s.caches.tail }

/-- Writing the topmost cache does not erase a hash below that is not written further down yet. -/
def FlushKeepsBest : Prop :=
  match s.caches with
  | child :: parent :: parents =>
    child.hashBlock ≠ 0 ∨ parent.hashBlock = 0 ∨ parent.hashBlock = (fetchBestBlock s.base parents).1
  | _ => True

variable {base : CCoinsViewDB} {cache : CCoinsViewCache} {parents : List CCoinsViewCache}

theorem fetchBestBlock_asked (asked : cache.hashBlock ≠ 0) :
    (fetchBestBlock base (cache :: parents)).1 = cache.hashBlock := by
  rw [fetchBestBlock, if_neg asked]

theorem fetchBestBlock_unasked (unasked : cache.hashBlock = 0) :
    (fetchBestBlock base (cache :: parents)).1 = (fetchBestBlock base parents).1 := by
  rw [fetchBestBlock, if_pos unasked]

theorem batchWriteEntry_hashBestChain (h : base.batchWriteEntry txid entry = some base') :
    base'.hashBestChain = base.hashBestChain := by
  unfold CCoinsViewDB.batchWriteEntry CCoinsViewDB.batchWriteCoins at h
  split at h
  · split at h
    · rw [← Option.some.inj h]
    · obtain ⟨writes, _, h⟩ := Option.bind_eq_some_iff.mp h
      rw [← Option.some.inj h]
  · rw [← Option.some.inj h]

theorem batchWrite_hashBestChain (h : base.batchWrite mapCoins hashBlock = some base') :
    base'.hashBestChain = if hashBlock = 0 then base.hashBestChain else hashBlock := by
  have folded : ∀ (entries : List ((_ : uint256) × CCoinsCacheEntry)) (b b' : CCoinsViewDB),
      entries.foldlM (fun b e => b.batchWriteEntry e.1 e.2) b = some b' → b'.hashBestChain = b.hashBestChain := by
    intro entries
    induction entries with
    | nil =>
      intro b b' done
      rw [← Option.some.inj done]
    | cons e entries ih =>
      intro b b' done
      rw [List.foldlM_cons] at done
      obtain ⟨mid, first, rest⟩ := Option.bind_eq_some_iff.mp done
      exact (ih mid b' rest).trans (batchWriteEntry_hashBestChain first)
  unfold CCoinsViewDB.batchWrite at h
  obtain ⟨mid, written, h⟩ := Option.bind_eq_some_iff.mp h
  rw [← Option.some.inj h, ← folded _ _ _ written]
  split
  · rfl
  · rfl

theorem batchWrite_hashBlock (h : cache.batchWrite mapCoins hashBlock = some cache') : cache'.hashBlock = hashBlock := by
  unfold CCoinsViewCache.batchWrite at h
  split at h
  · cases h
  · obtain ⟨mid, _, h⟩ := Option.bind_eq_some_iff.mp h
    rw [← Option.some.inj h]

theorem flush_bestBlock_iff {s t : CoinsStack} (flushed : s.flush = some t) :
    t.below.bestBlock = s.bestBlock ↔ s.FlushKeepsBest := by
  obtain ⟨caches, base⟩ := s
  unfold flush at flushed
  match caches, flushed with
  | [], flushed =>
    rw [← Option.some.inj flushed]
    exact ⟨fun _ => trivial, fun _ => rfl⟩
  | [cache], flushed =>
    obtain ⟨base', written, flushed⟩ := Option.bind_eq_some_iff.mp flushed
    rw [← Option.some.inj flushed]
    refine ⟨fun _ => trivial, fun _ => ?_⟩
    show base'.hashBestChain = (fetchBestBlock base [cache]).1
    rw [batchWrite_hashBestChain written]
    by_cases unasked : cache.hashBlock = 0
    · rw [if_pos unasked, fetchBestBlock_unasked unasked]
      rfl
    · rw [if_neg unasked, fetchBestBlock_asked unasked]
  | child :: parent :: parents, flushed =>
    obtain ⟨parent', written, flushed⟩ := Option.bind_eq_some_iff.mp flushed
    rw [← Option.some.inj flushed]
    have handed := batchWrite_hashBlock written
    show (fetchBestBlock base (parent' :: parents)).1 = (fetchBestBlock base (child :: parent :: parents)).1 ↔
      (child.hashBlock ≠ 0 ∨ parent.hashBlock = 0 ∨ parent.hashBlock = (fetchBestBlock base parents).1)
    by_cases unasked : child.hashBlock = 0
    · rw [fetchBestBlock_unasked (handed.trans unasked), fetchBestBlock_unasked unasked]
      by_cases empty : parent.hashBlock = 0
      · rw [fetchBestBlock_unasked empty]
        exact ⟨fun _ => Or.inr (Or.inl empty), fun _ => rfl⟩
      · rw [fetchBestBlock_asked empty]
        constructor
        · intro same
          exact Or.inr (Or.inr same.symm)
        · intro meets
          rcases meets with asked | none | same
          · exact absurd unasked asked
          · exact absurd none empty
          · exact same.symm
    · have asked : parent'.hashBlock ≠ 0 := handed ▸ unasked
      rw [fetchBestBlock_asked asked, fetchBestBlock_asked unasked, handed]
      exact ⟨fun _ => Or.inl unasked, fun _ => rfl⟩

theorem asked_flushKeepsBest (asked : child.hashBlock ≠ 0) :
    FlushKeepsBest { caches := child :: parent :: parents, base } := Or.inl asked

theorem getBestBlock_flushKeepsBest : s.getBestBlock.2.FlushKeepsBest := by
  obtain ⟨caches, base⟩ := s
  show FlushKeepsBest { caches := (fetchBestBlock base caches).2, base }
  match caches with
  | [] => trivial
  | [cache] =>
    rw [fetchBestBlock]
    split
    · trivial
    · trivial
  | child :: parent :: parents =>
    by_cases unasked : child.hashBlock = 0
    · rw [fetchBestBlock, if_pos unasked, fetchBestBlock]
      by_cases empty : parent.hashBlock = 0
      · rw [if_pos empty]
        by_cases none : (fetchBestBlock base parents).1 = 0
        · exact Or.inr (Or.inl none)
        · exact asked_flushKeepsBest none
      · rw [if_neg empty]
        exact asked_flushKeepsBest empty
    · rw [fetchBestBlock, if_neg unasked]
      exact asked_flushKeepsBest unasked

/-- In every run, every write of the topmost cache keeps the best block exactly when each meets the condition. -/
theorem runs_keep_bestBlock (s : CoinsStack) (ops : List TipOp) :
    (∀ before, before ++ [.coins .flush] <+: ops → ∀ answers mid t,
        Run.run tipStep s before = some (answers, mid) → mid.flush = some t → t.below.bestBlock = mid.bestBlock) ↔
      ∀ before, before ++ [.coins .flush] <+: ops → ∀ answers mid t,
        Run.run tipStep s before = some (answers, mid) → mid.flush = some t → mid.FlushKeepsBest := by
  constructor
  · intro kept before inside answers mid t reached flushed
    exact (flush_bestBlock_iff flushed).mp (kept before inside answers mid t reached flushed)
  · intro meets before inside answers mid t reached flushed
    exact (flush_bestBlock_iff flushed).mpr (meets before inside answers mid t reached flushed)

/-- A cache over one that holds block 7 is written without having been asked for the best block. -/
theorem unasked_cache_loses_bestBlock :
    ¬∀ before, before ++ [.coins .flush] <+: [.coins .cover, .setBestBlock 7, .coins .cover, .coins .flush] →
      ∀ answers mid t, Run.run tipStep { base := { keys := CCoins.noKeys } } before = some (answers, mid) → mid.flush = some t →
        t.below.bestBlock = mid.bestBlock := by
  intro kept
  have lost := kept [.coins .cover, .setBestBlock 7, .coins .cover] (List.prefix_refl _) _ _ _ rfl rfl
  exact absurd lost (by decide)

end CoinsStack

end SchillingCoin
