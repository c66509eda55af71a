import SchillingCoin.Wallet.KeyPool
import SchillingCoin.Lib.Run
import Mathlib.Tactic.SplitIfs

/-!
Who holds an index of the key pool.
-/

namespace SchillingCoin

namespace KeyPool

inductive Place where
  | pool (s : Pool)
  | held (a : Nat)
  deriving DecidableEq

namespace Wallet

def At (w : Wallet) : Place → Int → Prop
  | .pool s, nIndex => nIndex ∈ w.sets s
  | .held a, nIndex => (w.reserveKeys a).nIndex = nIndex ∧ nIndex ≠ -1

structure Holds (w : Wallet) : Prop where
  apart : ∀ p q nIndex, w.At p nIndex → w.At q nIndex → p = q
  recorded : ∀ p nIndex, w.At p nIndex → ∃ keypool, w.pool.lookup nIndex = some keypool ∧ keypool.vchPubKey ∈ w.keys
  keptOnce : w.log.Pairwise fun later earlier => ∀ key, earlier = .kept key → later ≠ .returned key

def Fits (w : Wallet) : Place → CKeyPool → Prop
  | .pool .internal, keypool => keypool.fInternal = true
  | .pool _, keypool => keypool.fInternal = false
  | .held a, keypool => (w.reserveKeys a).vchPubKey = keypool.vchPubKey ∧ (w.reserveKeys a).fInternal = keypool.fInternal

structure Entry (w : Wallet) (p : Place) (nIndex : Int) (keypool : CKeyPool) : Prop where
  positive : 0 < nIndex
  owned : keypool.vchPubKey ∈ w.keys
  unkept : Event.kept keypool.vchPubKey ∉ w.log
  fits : w.Fits p keypool

structure Sound (w : Wallet) : Prop where
  recorded : ∀ p nIndex, w.At p nIndex → ∃ keypool, w.pool.lookup nIndex = some keypool ∧ w.Entry p nIndex keypool
  apart : ∀ p q nIndex, w.At p nIndex → w.At q nIndex → p = q
  keysApart : ∀ p q nIndex nIndex' keypool keypool', w.At p nIndex → w.At q nIndex' → w.pool.lookup nIndex = some keypool →
    w.pool.lookup nIndex' = some keypool' → keypool.vchPubKey = keypool'.vchPubKey → nIndex = nIndex'
  valid : ∀ key ∈ w.keys, key ≠ []
  keptOwned : ∀ key, Event.kept key ∈ w.log → key ∈ w.keys
  keptOnce : w.log.Pairwise fun later earlier => ∀ key, earlier = .kept key → later ≠ .returned key

variable {w : Wallet} {source : KeySource} {ctx : Context}

theorem Sound.holds (sound : w.Sound) : w.Holds where
  apart := sound.apart
  recorded := by
    intro p nIndex here
    obtain ⟨keypool, found, entry⟩ := sound.recorded p nIndex here
    exact ⟨keypool, found, entry.owned⟩
  keptOnce := sound.keptOnce

variable {p : Place} {nIndex i : Int} {keypool : CKeyPool} {s : Pool} {key : CReserveKey}

theorem Sound.entry (sound : w.Sound) (here : w.At p nIndex) (found : w.pool.lookup nIndex = some keypool) :
    w.Entry p nIndex keypool := by
  obtain ⟨keypool', found', entry⟩ := sound.recorded p nIndex here
  rw [found] at found'
  rw [Option.some.inj found']
  exact entry

theorem Fits.congr {w' : Wallet} (fits : w.Fits q keypool) (same : ∀ a, q = .held a → w'.reserveKeys a = w.reserveKeys a) :
    w'.Fits q keypool := by
  cases q with
  | pool t => cases t <;> exact fits
  | held a =>
    simp only [Fits, same a rfl]
    exact fits

@[simp] theorem mem_insertIndex : i ∈ insertIndex indices nIndex ↔ i ∈ indices ∨ i = nIndex := by
  unfold insertIndex
  split
  · rename_i inside
    constructor
    · exact Or.inl
    · rintro (old | rfl)
      · exact old
      · exact inside
  · simp

theorem at_insertInto : (w.insertInto s nIndex).At p i ↔ w.At p i ∨ p = .pool s ∧ i = nIndex := by
  cases p with
  | held a => simp [At, insertInto]
  | pool t =>
    by_cases same : t = s
    · subst same
      simp [At, insertInto]
    · simp [At, insertInto, same]

theorem at_eraseFrom : (w.eraseFrom s nIndex).At p i ↔ w.At p i ∧ ¬(p = .pool s ∧ i = nIndex) := by
  cases p with
  | held a => simp [At, eraseFrom]
  | pool t =>
    by_cases same : t = s
    · subst same
      simp [At, eraseFrom]
    · simp [At, eraseFrom, same]

theorem at_setReserveKey :
    (w.setReserveKey a key).At p i ↔ (p ≠ .held a ∧ w.At p i) ∨ p = .held a ∧ key.nIndex = i ∧ i ≠ -1 := by
  cases p with
  | pool t => simp [At, setReserveKey]
  | held b =>
    by_cases same : b = a
    · subst same
      simp [At, setReserveKey]
    · simp [At, setReserveKey, same]

theorem at_record : (w.record event).At p i ↔ w.At p i := by
  cases p <;> exact Iff.rfl

def side (fInternal : Bool) : Pool := if fInternal then .internal else .external

theorem at_addKey :
    (w.addKey source ctx fInternal).At p i ↔ w.At p i ∨ p = .pool (side fInternal) ∧ i = w.nEnd := at_insertInto

def nextIndex : Option Int → Option Int → Int
  | none, none => 1
  | some i, none => i + 1
  | none, some e => max 1 (e + 1)
  | some i, some e => max (i + 1) (e + 1)

theorem nEnd_eq (w : Wallet) : w.nEnd = nextIndex (w.sets .internal).max? (w.sets .external).max? := by
  unfold nEnd
  cases (w.sets .internal).max? <;> cases (w.sets .external).max? <;> rfl

theorem lt_nextIndex_left (less : i ≤ last) (other : Option Int) : i < nextIndex (some last) other := by
  cases other <;> simp only [nextIndex] <;> omega

theorem lt_nextIndex_right (less : i ≤ last) (other : Option Int) : i < nextIndex other (some last) := by
  cases other <;> simp only [nextIndex] <;> omega

theorem nextIndex_left (internal external : Option Int) :
    nextIndex (some (nextIndex internal external)) external = nextIndex internal external + 1 := by
  cases internal <;> cases external <;> simp only [nextIndex] <;> omega

theorem nextIndex_right (internal external : Option Int) :
    nextIndex internal (some (nextIndex internal external)) = nextIndex internal external + 1 := by
  cases internal <;> cases external <;> simp only [nextIndex] <;> omega

theorem lt_nEnd (notPreSplit : s ≠ .preSplit) (inside : i ∈ w.sets s) : i < w.nEnd := by
  obtain ⟨last, isLast⟩ := Option.isSome_iff_exists.mp (List.isSome_max?_of_mem inside)
  have bound := (List.max?_eq_some_iff.mp isLast).2 i inside
  rw [nEnd_eq]
  cases s with
  | preSplit => exact absurd rfl notPreSplit
  | internal =>
    rw [isLast]
    exact lt_nextIndex_left bound _
  | external =>
    rw [isLast]
    exact lt_nextIndex_right bound _

theorem max?_insertIndex (less : ∀ i ∈ indices, i < nIndex) : (insertIndex indices nIndex).max? = some nIndex := by
  apply List.max?_eq_some_iff.mpr
  refine ⟨by simp, fun i member => ?_⟩
  rcases mem_insertIndex.mp member with old | rfl
  · have := less i old
    omega
  · omega

theorem nEnd_addKey (fInternal : Bool) : (w.addKey source ctx fInternal).nEnd = w.nEnd + 1 := by
  cases fInternal with
  | true =>
    have last : ((w.addKey source ctx true).sets .internal).max? = some w.nEnd :=
      max?_insertIndex fun i => lt_nEnd (by decide)
    have same : (w.addKey source ctx true).sets .external = w.sets .external := rfl
    rw [nEnd_eq, last, same, nEnd_eq w]
    exact nextIndex_left _ _
  | false =>
    have last : ((w.addKey source ctx false).sets .external).max? = some w.nEnd :=
      max?_insertIndex fun i => lt_nEnd (by decide)
    have same : (w.addKey source ctx false).sets .internal = w.sets .internal := rfl
    rw [nEnd_eq, last, same, nEnd_eq w]
    exact nextIndex_right _ _

theorem nextIndex_pos (left : ∀ i, internal = some i → 0 < i) : 0 < nextIndex internal external := by
  cases internal with
  | none => cases external <;> simp only [nextIndex] <;> omega
  | some i =>
    have := left i rfl
    cases external <;> simp only [nextIndex] <;> omega

def Positive (w : Wallet) : Prop := ∀ s, ∀ i ∈ w.sets s, 0 < i

theorem Positive.nEnd_pos (positive : w.Positive) : 0 < w.nEnd := by
  rw [nEnd_eq]
  apply nextIndex_pos
  intro i isLast
  exact positive .internal i (List.max?_eq_some_iff.mp isLast).1

theorem Sound.positive (sound : w.Sound) : w.Positive := by
  intro s i inside
  obtain ⟨_, _, entry⟩ := sound.recorded (.pool s) i inside
  exact entry.positive

theorem Positive.topUpLoop (positive : w.Positive) (missingInternal rounds : Nat) :
    (topUpLoop source ctx missingInternal rounds w).Positive := by
  induction rounds generalizing w with
  | zero => exact positive
  | succ i ih =>
    apply ih
    intro s j inside
    rcases at_addKey.mp (show (w.addKey source ctx _).At (.pool s) j from inside) with inside | ⟨_, rfl⟩
    · exact positive s j inside
    · exact positive.nEnd_pos

theorem lookup_addKey (source : KeySource) (ctx : Context) (fInternal : Bool) (i : Int) : (w.addKey source ctx fInternal).pool.lookup i =
    if i = w.nEnd then some { nTime := ctx.getTime, vchPubKey := source.next w.keys fInternal, fInternal := fInternal }
    else w.pool.lookup i := StdMap.lookup_insert_ite _ _ _ _

theorem Sound.addKey (sound : w.Sound) (source : KeySource) (ctx : Context) (fInternal : Bool) (free : ∀ p, ¬w.At p w.nEnd) :
    (w.addKey source ctx fInternal).Sound := by
  have fresh := source.fresh w.keys fInternal
  have old : ∀ {p i}, w.At p i → (w.addKey source ctx fInternal).pool.lookup i = w.pool.lookup i := by
    intro p i here
    rw [lookup_addKey, if_neg]
    rintro rfl
    exact free p here
  have new := lookup_addKey (w := w) source ctx fInternal w.nEnd
  rw [if_pos rfl] at new
  refine ⟨?_, ?_, ?_, ?_, ?_, sound.keptOnce⟩
  · intro p i here
    rcases at_addKey.mp here with here | ⟨rfl, rfl⟩
    · obtain ⟨keypool, found, entry⟩ := sound.recorded p i here
      exact ⟨keypool, (old here).trans found, entry.positive, List.mem_cons_of_mem _ entry.owned, entry.unkept, entry.fits⟩
    · refine ⟨_, new, sound.positive.nEnd_pos, List.mem_cons_self, fun kept => fresh (sound.keptOwned _ kept), ?_⟩
      cases fInternal <;> rfl
  · intro p q i here here'
    rcases at_addKey.mp here with here | ⟨rfl, rfl⟩
    · rcases at_addKey.mp here' with here' | ⟨_, rfl⟩
      · exact sound.apart p q i here here'
      · exact absurd here (free p)
    · rcases at_addKey.mp here' with here' | ⟨rfl, _⟩
      · exact absurd here' (free q)
      · rfl
  · intro p q i i' keypool keypool' here here' found found' same
    rcases at_addKey.mp here with here | ⟨rfl, rfl⟩
    · rw [old here] at found
      rcases at_addKey.mp here' with here' | ⟨_, rfl⟩
      · rw [old here'] at found'
        exact sound.keysApart p q i i' keypool keypool' here here' found found' same
      · rw [new] at found'
        have owned := (sound.entry here found).owned
        rw [same, ← Option.some.inj found'] at owned
        exact absurd owned fresh
    · rcases at_addKey.mp here' with here' | ⟨_, rfl⟩
      · rw [old here'] at found'
        rw [new] at found
        have owned := (sound.entry here' found').owned
        rw [← same, ← Option.some.inj found] at owned
        exact absurd owned fresh
      · rfl
  · intro key member
    rcases List.mem_cons.mp member with rfl | member
    · exact source.valid _ _
    · exact sound.valid key member
  · intro key kept
    exact List.mem_cons_of_mem _ (sound.keptOwned key kept)

def Shared (w : Wallet) : Prop := ∃ p q nIndex, p ≠ q ∧ w.At p nIndex ∧ w.At q nIndex

theorem Shared.not_holds (shared : w.Shared) : ¬w.Holds := by
  obtain ⟨p, q, i, different, here, here'⟩ := shared
  exact fun holds => different (holds.apart p q i here here')

theorem Shared.addKey (shared : w.Shared) (fInternal : Bool) : (w.addKey source ctx fInternal).Shared := by
  obtain ⟨p, q, i, different, here, here'⟩ := shared
  exact ⟨p, q, i, different, at_addKey.mpr (Or.inl here), at_addKey.mpr (Or.inl here')⟩

theorem Shared.topUpLoop (shared : w.Shared) (missingInternal rounds : Nat) :
    (topUpLoop source ctx missingInternal rounds w).Shared := by
  induction rounds generalizing w with
  | zero => exact shared
  | succ i ih => exact ih (shared.addKey _)

def Free (w : Wallet) (rounds : Nat) : Prop :=
  ∀ i, w.nEnd ≤ i → i < w.nEnd + rounds → i ∉ w.sets .preSplit ∧ ∀ a, (w.reserveKeys a).nIndex ≠ i

theorem free_succ (source : KeySource) (ctx : Context) (fInternal : Bool) (rounds : Nat) :
    w.Free (rounds + 1) ↔ w.Free 1 ∧ (w.addKey source ctx fInternal).Free rounds := by
  have preSplit : (w.addKey source ctx fInternal).sets .preSplit = w.sets .preSplit := by cases fInternal <;> rfl
  have reserved : (w.addKey source ctx fInternal).reserveKeys = w.reserveKeys := rfl
  unfold Free
  rw [nEnd_addKey, preSplit, reserved]
  constructor
  · intro free
    exact ⟨fun i low high => free i low (by omega), fun i low high => free i (by omega) (by omega)⟩
  · rintro ⟨first, rest⟩ i low high
    by_cases isFirst : i = w.nEnd
    · exact first i low (by omega)
    · exact rest i (by omega) (by omega)

theorem Free.not_at_nEnd (free : w.Free 1) (p : Place) : ¬w.At p w.nEnd := by
  obtain ⟨notPreSplit, notReserved⟩ := free w.nEnd (by omega) (by omega)
  intro here
  cases p with
  | held a => exact notReserved a here.1
  | pool s =>
    cases s with
    | preSplit => exact notPreSplit here
    | internal => exact absurd (lt_nEnd (by decide) here) (by omega)
    | external => exact absurd (lt_nEnd (by decide) here) (by omega)

theorem Sound.shared_addKey (sound : w.Sound) (fInternal : Bool) (taken : ¬w.Free 1) : (w.addKey source ctx fInternal).Shared := by
  have positive := sound.positive.nEnd_pos
  have here : ∃ p, p ≠ .pool (side fInternal) ∧ w.At p w.nEnd := by
    by_contra nobody
    apply taken
    intro i low high
    have isEnd : i = w.nEnd := by omega
    subst isEnd
    refine ⟨fun inside => nobody ⟨.pool .preSplit, ?_, inside⟩, fun a held => nobody ⟨.held a, by simp, held, by omega⟩⟩
    cases fInternal <;> simp [side]
  obtain ⟨p, different, here⟩ := here
  exact ⟨p, .pool (side fInternal), w.nEnd, different, at_addKey.mpr (Or.inl here), at_addKey.mpr (Or.inr ⟨rfl, rfl⟩)⟩

theorem Sound.topUpLoop (sound : w.Sound) (missingInternal rounds : Nat) :
    (w.Free rounds → (topUpLoop source ctx missingInternal rounds w).Sound) ∧
      (¬w.Free rounds → (topUpLoop source ctx missingInternal rounds w).Shared) := by
  induction rounds generalizing w with
  | zero => exact ⟨fun _ => sound, fun taken => absurd (fun i low high => by omega) taken⟩
  | succ i ih =>
    unfold Wallet.topUpLoop
    rw [free_succ source ctx (decide (i < missingInternal))]
    by_cases free : w.Free 1
    · obtain ⟨sound', shared⟩ := ih (sound.addKey source ctx (decide (i < missingInternal)) free.not_at_nEnd)
      exact ⟨fun both => sound' both.2, fun taken => shared fun rest => taken ⟨free, rest⟩⟩
    · exact ⟨fun both => absurd both.1 free, fun _ => (sound.shared_addKey _ free).topUpLoop _ _⟩

theorem topUpLoop_frame (missingInternal rounds : Nat) (w : Wallet) :
    (topUpLoop source ctx missingInternal rounds w).sets .preSplit = w.sets .preSplit ∧
      (topUpLoop source ctx missingInternal rounds w).reserveKeys = w.reserveKeys := by
  induction rounds generalizing w with
  | zero => exact ⟨rfl, rfl⟩
  | succ i ih =>
    obtain ⟨preSplit, reserved⟩ := ih (w.addKey source ctx (decide (i < missingInternal)))
    refine ⟨preSplit.trans ?_, reserved⟩
    cases decide (i < missingInternal) <;> rfl

def missing (ctx : Context) (kpSize : UInt32) (w : Wallet) : Nat :=
  if ctx.isLocked then 0 else missingInternal ctx kpSize w + missingExternal ctx kpSize w

theorem topUpKeyPool_frame (kpSize : UInt32) (w : Wallet) :
    (w.topUpKeyPool source ctx kpSize).sets .preSplit = w.sets .preSplit ∧
      (w.topUpKeyPool source ctx kpSize).reserveKeys = w.reserveKeys := by
  unfold Wallet.topUpKeyPool
  split
  · exact ⟨rfl, rfl⟩
  · exact topUpLoop_frame _ _ w

theorem Positive.topUpKeyPool (positive : w.Positive) (source : KeySource) (ctx : Context) (kpSize : UInt32) : (w.topUpKeyPool source ctx kpSize).Positive := by
  unfold Wallet.topUpKeyPool
  split
  · exact positive
  · exact positive.topUpLoop _ _

theorem Sound.topUpKeyPool (sound : w.Sound) (source : KeySource) (ctx : Context) (kpSize : UInt32) :
    (w.Free (missing ctx kpSize w) → (w.topUpKeyPool source ctx kpSize).Sound) ∧
      (¬w.Free (missing ctx kpSize w) → (w.topUpKeyPool source ctx kpSize).Shared) := by
  unfold Wallet.topUpKeyPool missing
  split
  · exact ⟨fun _ => sound, fun taken => absurd (fun i low high => by omega) taken⟩
  · exact sound.topUpLoop _ _

theorem Sound.moved {w' : Wallet} (sound : w.Sound) (keys : w'.keys = w.keys)
    (origin : ∀ q i, w'.At q i → ∃ p keypool keypool', w.At p i ∧ w.pool.lookup i = some keypool ∧
      w'.pool.lookup i = some keypool' ∧ keypool'.vchPubKey = keypool.vchPubKey ∧ w'.Fits q keypool' ∧
      Event.kept keypool.vchPubKey ∉ w'.log)
    (apart : ∀ p q i, w'.At p i → w'.At q i → p = q) (keptOwned : ∀ key, Event.kept key ∈ w'.log → key ∈ w'.keys)
    (keptOnce : w'.log.Pairwise fun later earlier => ∀ key, earlier = .kept key → later ≠ .returned key) : w'.Sound where
  recorded := by
    intro q i here
    obtain ⟨p, keypool, keypool', before, found, found', same, fits, unkept⟩ := origin q i here
    have entry := sound.entry before found
    refine ⟨keypool', found', entry.positive, ?_, ?_, fits⟩
    · rw [same, keys]
      exact entry.owned
    · rw [same]
      exact unkept
  apart := apart
  keysApart := by
    intro q q' i i' keypool₁ keypool₂ here here' found₁ found₂ same
    obtain ⟨p, keypool, _, before, found, now, sameKey, _⟩ := origin q i here
    obtain ⟨p', keypool', _, before', found', now', sameKey', _⟩ := origin q' i' here'
    rw [found₁] at now
    rw [found₂] at now'
    rw [← Option.some.inj now] at sameKey
    rw [← Option.some.inj now'] at sameKey'
    exact sound.keysApart p p' i i' keypool keypool' before before' found found' (by rw [← sameKey, ← sameKey', same])
  valid := by
    rw [keys]
    exact sound.valid
  keptOwned := keptOwned
  keptOnce := keptOnce

theorem Sound.not_held (sound : w.Sound) (inside : i ∈ w.sets s) (a : Nat) :
    (w.reserveKeys a).nIndex ≠ i := by
  intro held
  obtain ⟨_, _, entry⟩ := sound.recorded (.pool s) i inside
  have positive := entry.positive
  exact nomatch sound.apart (.held a) (.pool s) i ⟨held, by omega⟩ inside

theorem Sound.reserve (sound : w.Sound) (inside : i ∈ w.sets s) (found : w.pool.lookup i = some keypool)
    (a : Nat) :
    (((w.eraseFrom s i).setReserveKey a { nIndex := i, vchPubKey := keypool.vchPubKey, fInternal := keypool.fInternal }).record
      (.returned keypool.vchPubKey)).Sound := by
  have entry := sound.entry (p := .pool s) inside found
  have positive := entry.positive
  -- The indices after the step: those of others, and the one that was taken.
  have after : ∀ {q j}, (((w.eraseFrom s i).setReserveKey a
      { nIndex := i, vchPubKey := keypool.vchPubKey, fInternal := keypool.fInternal }).record
      (.returned keypool.vchPubKey)).At q j → (q ≠ .held a ∧ w.At q j ∧ j ≠ i) ∨ q = .held a ∧ j = i := by
    intro q j here
    rcases at_setReserveKey.mp (at_record.mp here) with ⟨other, here⟩ | ⟨rfl, same, _⟩
    · obtain ⟨before, notTaken⟩ := at_eraseFrom.mp here
      refine Or.inl ⟨other, before, ?_⟩
      rintro rfl
      exact notTaken ⟨sound.apart q (.pool s) j before inside, rfl⟩
    · exact Or.inr ⟨rfl, same.symm⟩
  apply sound.moved
  · rfl
  · intro q j here
    rcases after here with ⟨other, here, _⟩ | ⟨rfl, rfl⟩
    · obtain ⟨keypool', found', entry'⟩ := sound.recorded q j here
      refine ⟨q, keypool', keypool', here, found', found', rfl, entry'.fits.congr ?_, ?_⟩
      · rintro b rfl
        exact Function.update_of_ne (fun same => other (by rw [same])) _ _
      · simpa [record, setReserveKey, eraseFrom] using entry'.unkept
    · refine ⟨.pool s, keypool, keypool, inside, found, found, rfl, by simp [Fits, record, setReserveKey], ?_⟩
      simpa [record, setReserveKey, eraseFrom] using entry.unkept
  · intro p q j here here'
    rcases after here with ⟨_, here, notTaken⟩ | ⟨rfl, taken⟩
    · rcases after here' with ⟨_, here', _⟩ | ⟨rfl, taken⟩
      · exact sound.apart p q j here here'
      · exact absurd taken notTaken
    · rcases after here' with ⟨_, _, notTaken⟩ | ⟨rfl, _⟩
      · exact absurd taken notTaken
      · rfl
  · intro key kept
    exact sound.keptOwned key (by simpa [record, setReserveKey, eraseFrom] using kept)
  · refine List.pairwise_cons.mpr ⟨?_, sound.keptOnce⟩
    rintro _ member key rfl same
    obtain rfl := Event.returned.inj same
    exact entry.unkept member

theorem pairwise_kept {log : List Event} (keptOnce : log.Pairwise fun later earlier => ∀ key, earlier = .kept key → later ≠ .returned key)
    (key : CPubKey) : (Event.kept key :: log).Pairwise fun later earlier => ∀ key, earlier = .kept key → later ≠ .returned key :=
  List.pairwise_cons.mpr ⟨fun _ _ _ _ same => (nomatch same), keptOnce⟩

theorem Sound.take (sound : w.Sound) (inside : i ∈ w.sets s) (found : w.pool.lookup i = some keypool) :
    ((((w.eraseFrom s i).keepKey i).record (.returned keypool.vchPubKey)).record (.kept keypool.vchPubKey)).Sound := by
  have entry := sound.entry (p := .pool s) inside found
  have after : ∀ {q j}, ((((w.eraseFrom s i).keepKey i).record (.returned keypool.vchPubKey)).record
      (.kept keypool.vchPubKey)).At q j → w.At q j ∧ j ≠ i := by
    intro q j here
    have here : (w.eraseFrom s i).At q j := by
      cases q <;> exact here
    obtain ⟨before, notTaken⟩ := at_eraseFrom.mp here
    refine ⟨before, ?_⟩
    rintro rfl
    exact notTaken ⟨sound.apart q (.pool s) j before inside, rfl⟩
  apply sound.moved
  · rfl
  · intro q j here
    obtain ⟨before, other⟩ := after here
    obtain ⟨keypool', found', entry'⟩ := sound.recorded q j before
    refine ⟨q, keypool', keypool', before, found', ?_, rfl, entry'.fits.congr fun _ _ => rfl, ?_⟩
    · show (w.pool.erase i).lookup j = _
      rw [StdMap.lookup_erase_ite, if_neg other]
      exact found'
    · intro kept
      rcases List.mem_cons.mp kept with same | kept
      · exact other (sound.keysApart q (.pool s) j i keypool' keypool before inside found' found (Event.kept.inj same))
      · rcases List.mem_cons.mp kept with same | kept
        · exact nomatch same
        · exact entry'.unkept kept
  · intro p q j here here'
    exact sound.apart p q j (after here).1 (after here').1
  · intro key kept
    rcases List.mem_cons.mp kept with same | kept
    · rw [Event.kept.inj same]
      exact entry.owned
    · rcases List.mem_cons.mp kept with same | kept
      · exact nomatch same
      · exact sound.keptOwned key kept
  · apply pairwise_kept
    refine List.pairwise_cons.mpr ⟨?_, sound.keptOnce⟩
    rintro _ member key rfl same
    obtain rfl := Event.returned.inj same
    exact entry.unkept member

theorem at_idle (idle : key.nIndex = -1) : (w.setReserveKey a key).At p i ↔ p ≠ .held a ∧ w.At p i := by
  rw [at_setReserveKey, idle]
  constructor
  · rintro (here | ⟨_, rfl, absurd_⟩)
    · exact here
    · exact absurd rfl absurd_
  · exact Or.inl

theorem Sound.setIdle (sound : w.Sound) (a : Nat) (idle : key.nIndex = -1) :
    (w.setReserveKey a key).Sound := by
  apply sound.moved
  · rfl
  · intro q j here
    obtain ⟨other, before⟩ := (at_idle idle).mp here
    obtain ⟨keypool, found, entry⟩ := sound.recorded q j before
    refine ⟨q, keypool, keypool, before, found, found, rfl, entry.fits.congr ?_, entry.unkept⟩
    rintro b rfl
    exact Function.update_of_ne (fun same => other (by rw [same])) _ _
  · intro p q j here here'
    exact sound.apart p q j ((at_idle idle).mp here).2 ((at_idle idle).mp here').2
  · exact sound.keptOwned
  · exact sound.keptOnce

theorem Sound.keepReserved (sound : w.Sound) (a : Nat) : (w.keepReserved a).Sound := by
  unfold Wallet.keepReserved
  by_cases idle : (w.reserveKeys a).nIndex = -1
  · simp only [idle, ne_eq, not_true_eq_false, if_false]
    exact sound.setIdle a rfl
  · simp only [idle, ne_eq, not_false_eq_true, if_true]
    have held : w.At (.held a) (w.reserveKeys a).nIndex := ⟨rfl, idle⟩
    obtain ⟨keypool, found, entry⟩ := sound.recorded _ _ held
    have sameKey : (w.reserveKeys a).vchPubKey = keypool.vchPubKey := entry.fits.1
    have after : ∀ {q j}, (((w.keepKey (w.reserveKeys a).nIndex).record (.kept (w.reserveKeys a).vchPubKey)).setReserveKey a
        { w.reserveKeys a with nIndex := -1, vchPubKey := [] }).At q j →
        q ≠ .held a ∧ w.At q j ∧ j ≠ (w.reserveKeys a).nIndex := by
      intro q j here
      obtain ⟨other, here⟩ := (at_idle rfl).mp here
      have before : w.At q j := by
        cases q <;> exact here
      refine ⟨other, before, ?_⟩
      rintro rfl
      exact other (sound.apart q (.held a) _ before held)
    apply sound.moved
    · rfl
    · intro q j here
      obtain ⟨other, before, different⟩ := after here
      obtain ⟨keypool', found', entry'⟩ := sound.recorded q j before
      refine ⟨q, keypool', keypool', before, found', ?_, rfl, entry'.fits.congr ?_, ?_⟩
      · show (w.pool.erase _).lookup j = _
        rw [StdMap.lookup_erase_ite, if_neg different]
        exact found'
      · rintro b rfl
        exact Function.update_of_ne (fun same => other (by rw [same])) _ _
      · intro kept
        rcases List.mem_cons.mp kept with same | kept
        · have same := (Event.kept.inj same).trans sameKey
          exact different (sound.keysApart q (.held a) j _ keypool' keypool before held found' found same)
        · exact entry'.unkept kept
    · intro p q j here here'
      exact sound.apart p q j (after here).2.1 (after here').2.1
    · intro key kept
      rcases List.mem_cons.mp kept with same | kept
      · rw [Event.kept.inj same, sameKey]
        exact entry.owned
      · exact sound.keptOwned key kept
    · exact pairwise_kept sound.keptOnce _

theorem Sound.returnReserved (sound : w.Sound) (a : Nat) : (w.returnReserved a).Sound := by
  unfold Wallet.returnReserved
  by_cases idle : (w.reserveKeys a).nIndex = -1
  · simp only [idle, ne_eq, not_true_eq_false, if_false]
    exact sound.setIdle a rfl
  · simp only [idle, ne_eq, not_false_eq_true, if_true]
    have held : w.At (.held a) (w.reserveKeys a).nIndex := ⟨rfl, idle⟩
    obtain ⟨keypool, found, entry⟩ := sound.recorded _ _ held
    obtain ⟨_, sameSide⟩ := entry.fits
    unfold returnKey
    generalize target : (if (w.reserveKeys a).fInternal then Pool.internal else
      if !(w.sets .preSplit).isEmpty then .preSplit else .external) = t
    have fits : w.Fits (.pool t) keypool := by
      subst target
      rw [sameSide]
      cases isInternal : keypool.fInternal with
      | true => exact isInternal
      | false => cases (w.sets .preSplit).isEmpty <;> exact isInternal
    have after : ∀ {q j}, ((w.insertInto t (w.reserveKeys a).nIndex).setReserveKey a
        { w.reserveKeys a with nIndex := -1, vchPubKey := [] }).At q j →
        (q ≠ .held a ∧ w.At q j ∧ j ≠ (w.reserveKeys a).nIndex) ∨ q = .pool t ∧ j = (w.reserveKeys a).nIndex := by
      intro q j here
      obtain ⟨other, here⟩ := (at_idle rfl).mp here
      rcases at_insertInto.mp here with before | back
      · refine Or.inl ⟨other, before, ?_⟩
        rintro rfl
        exact other (sound.apart q (.held a) _ before held)
      · exact Or.inr back
    apply sound.moved
    · rfl
    · intro q j here
      rcases after here with ⟨other, before, _⟩ | ⟨rfl, rfl⟩
      · obtain ⟨keypool', found', entry'⟩ := sound.recorded q j before
        refine ⟨q, keypool', keypool', before, found', found', rfl, entry'.fits.congr ?_, entry'.unkept⟩
        rintro b rfl
        exact Function.update_of_ne (fun same => other (by rw [same])) _ _
      · exact ⟨.held a, keypool, keypool, held, found, found, rfl, fits.congr fun b same => (nomatch same), entry.unkept⟩
    · intro p q j here here'
      rcases after here with ⟨_, before, different⟩ | ⟨rfl, same⟩
      · rcases after here' with ⟨_, before', _⟩ | ⟨rfl, same⟩
        · exact sound.apart p q j before before'
        · exact absurd same different
      · rcases after here' with ⟨_, _, different⟩ | ⟨rfl, _⟩
        · exact absurd same different
        · rfl
    · exact sound.keptOwned
    · exact sound.keptOnce

theorem Sound.erasePools (sound : w.Sound) : w.erasePools.Sound := by
  have after : ∀ {q j}, w.erasePools.At q j → ∃ a, q = .held a ∧ w.At q j := by
    intro q j here
    cases q with
    | pool t => exact absurd here List.not_mem_nil
    | held a => exact ⟨a, rfl, here⟩
  have lookup_erased : ∀ {a j}, w.At (.held a) j → w.erasePools.pool.lookup j = w.pool.lookup j := by
    intro a j here
    apply Option.ext
    intro keypool
    have erased := StdMap.lookup_foldl_erase id (w.sets .internal ++ w.sets .external ++ w.sets .preSplit) w.pool j keypool
    refine erased.trans (and_iff_left ?_)
    intro member
    rw [List.map_id] at member
    simp only [List.mem_append] at member
    obtain ⟨s, inside⟩ : ∃ s, j ∈ w.sets s := by
      rcases member with (inside | inside) | inside
      · exact ⟨_, inside⟩
      · exact ⟨_, inside⟩
      · exact ⟨_, inside⟩
    exact sound.not_held inside a here.1
  apply sound.moved
  · rfl
  · intro q j here
    obtain ⟨a, rfl, before⟩ := after here
    obtain ⟨keypool, found, entry⟩ := sound.recorded _ j before
    exact ⟨_, keypool, keypool, before, found, (lookup_erased before).trans found, rfl, entry.fits.congr fun _ _ => rfl, entry.unkept⟩
  · intro p q j here here'
    obtain ⟨_, _, before⟩ := after here
    obtain ⟨_, _, before'⟩ := after here'
    exact sound.apart p q j before before'
  · exact sound.keptOwned
  · exact sound.keptOnce

def Outer (w : Wallet) (i : Int) : Prop := w.At (.pool .external) i ∨ w.At (.pool .preSplit) i

theorem Sound.markPreSplitKey (sound : w.Sound) {index : Int} (outer : w.Outer index) :
    ∃ w', w.markPreSplitKey index = .ok w' ∧ w'.Sound ∧ ∀ j, w.Outer j → w'.Outer j := by
  obtain ⟨s, inside, notInternal⟩ : ∃ s, w.At (.pool s) index ∧ s ≠ .internal := by
    rcases outer with inside | inside
    · exact ⟨_, inside, by decide⟩
    · exact ⟨_, inside, by decide⟩
  obtain ⟨keypool, found, entry⟩ := sound.recorded _ _ inside
  have isExternal : keypool.fInternal = false := by
    cases s with
    | internal => exact absurd rfl notInternal
    | external => exact entry.fits
    | preSplit => exact entry.fits
  obtain ⟨w', isAfter⟩ : ∃ w', w' = (Wallet.insertInto
      { w with pool := w.pool.insert index { keypool with m_pre_split := true } } .preSplit index).eraseFrom .external index := ⟨_, rfl⟩
  have lookup_after : ∀ j, w'.pool.lookup j = if j = index then some { keypool with m_pre_split := true } else w.pool.lookup j := by
    intro j
    rw [isAfter]
    exact StdMap.lookup_insert_ite _ _ _ _
  have at_after : ∀ {q j}, w'.At q j ↔ (w.At q j ∨ q = .pool .preSplit ∧ j = index) ∧ ¬(q = .pool .external ∧ j = index) := by
    intro q j
    rw [isAfter, at_eraseFrom, at_insertInto]
    cases q <;> exact Iff.rfl
  have after : ∀ {q j}, w'.At q j → (w.At q j ∧ j ≠ index) ∨ q = .pool .preSplit ∧ j = index := by
    intro q j here
    obtain ⟨before | marked, notErased⟩ := at_after.mp here
    · by_cases same : j = index
      · subst same
        have place := sound.apart q (.pool s) j before inside
        cases s with
        | internal => exact absurd rfl notInternal
        | external => exact absurd ⟨place, rfl⟩ notErased
        | preSplit => exact Or.inr ⟨place, rfl⟩
      · exact Or.inl ⟨before, same⟩
    · exact Or.inr marked
  refine ⟨w', ?_, ?_, ?_⟩
  · simp only [Wallet.markPreSplitKey, found]
    rw [isAfter]
  · apply sound.moved
    · rw [isAfter]
      rfl
    · intro q j here
      rcases after here with ⟨before, different⟩ | ⟨rfl, rfl⟩
      · obtain ⟨keypool', found', entry'⟩ := sound.recorded q j before
        refine ⟨q, keypool', keypool', before, found', ?_, rfl, entry'.fits.congr ?_, ?_⟩
        · rw [lookup_after, if_neg different]
          exact found'
        · intro _ _
          rw [isAfter]
          rfl
        · rw [isAfter]
          exact entry'.unkept
      · refine ⟨.pool s, keypool, { keypool with m_pre_split := true }, inside, found, ?_, rfl, isExternal, ?_⟩
        · rw [lookup_after, if_pos rfl]
        · rw [isAfter]
          exact entry.unkept
    · intro p q j here here'
      rcases after here with ⟨before, different⟩ | ⟨rfl, same⟩
      · rcases after here' with ⟨before', _⟩ | ⟨rfl, same⟩
        · exact sound.apart p q j before before'
        · exact absurd same different
      · rcases after here' with ⟨_, different⟩ | ⟨rfl, _⟩
        · exact absurd same different
        · rfl
    · rw [isAfter]
      exact sound.keptOwned
    · rw [isAfter]
      exact sound.keptOnce
  · intro j before
    by_cases same : j = index
    · exact Or.inr (at_after.mpr ⟨Or.inr ⟨rfl, same⟩, by simp⟩)
    · rcases before with before | before
      · exact Or.inl (at_after.mpr ⟨Or.inl before, fun erased => same erased.2⟩)
      · exact Or.inr (at_after.mpr ⟨Or.inl before, by simp⟩)

theorem Sound.markPreSplitKeys (sound : w.Sound) : ∃ w', w.markPreSplitKeys = .ok w' ∧ w'.Sound := by
  have all : ∀ (indices : List Int) (w : Wallet), w.Sound → (∀ i ∈ indices, w.Outer i) →
      ∃ w', indices.foldlM Wallet.markPreSplitKey w = .ok w' ∧ w'.Sound := by
    intro indices
    induction indices with
    | nil => exact fun w sound _ => ⟨w, rfl, sound⟩
    | cons index rest ih =>
      intro w sound outer
      obtain ⟨mid, done, soundMid, kept⟩ := sound.markPreSplitKey (outer index (by simp))
      obtain ⟨w', rest_, sound'⟩ := ih mid soundMid fun i member => kept i (outer i (List.mem_cons_of_mem _ member))
      refine ⟨w', ?_, sound'⟩
      rw [List.foldlM_cons, done]
      exact rest_
  exact all (w.sets .external) w sound fun i inside => Or.inl inside

end Wallet

end KeyPool

end SchillingCoin
