import SchillingCoin.Wallet.KeyPoolOwners

/-!
Runs of the key pool: exactly which calls keep one owner for every index.
-/

namespace SchillingCoin

namespace KeyPool

def SoundResult : Except Throw Wallet → Prop
  | .ok w => w.Sound
  | .error _ => False

def HoldsResult : Except Throw Wallet → Prop
  | .ok w => w.Holds
  | .error _ => False

namespace Wallet

variable {w : Wallet} {source : KeySource} {ctx : Context}

def OnePreSplit (w : Wallet) : Prop := ∃ i, ∀ j, j ∈ w.sets .preSplit ↔ j = i

theorem takeKey_ok (done : w.takeKey fInternal = .ok result) :
    result = (none, w) ∨ ∃ s nIndex keypool, result = (some (nIndex, keypool), w.eraseFrom s nIndex) ∧ nIndex ∈ w.sets s ∧
      w.pool.lookup nIndex = some keypool := by
  unfold takeKey at done
  dsimp only at done
  split at done
  · exact Or.inl (Except.ok.inj done).symm
  · rename_i nIndex isMin
    split at done
    · exact nomatch done
    · rename_i keypool found
      split_ifs at done
      exact Or.inr ⟨_, nIndex, keypool, (Except.ok.inj done).symm, (List.min?_eq_some_iff.mp isMin).1, found⟩

theorem Sound.takeKey (sound : w.Sound) (fInternal : Bool) :
    (∃ result, w.takeKey fInternal = .ok result) ↔ ¬(fInternal = true ∧ w.OnePreSplit) := by
  unfold Wallet.takeKey
  dsimp only
  cases isMin : (w.sets (w.setKeyPool fInternal)).min? with
  | none =>
    have empty : w.sets (w.setKeyPool fInternal) = [] := List.min?_eq_none_iff.mp isMin
    refine ⟨fun _ => ?_, fun _ => ⟨_, rfl⟩⟩
    rintro ⟨_, i, one⟩
    have inside := (one i).mpr rfl
    have notEmpty : (w.sets .preSplit).isEmpty = false := by
      cases split_ : w.sets .preSplit with
      | nil => rw [split_] at inside; exact absurd inside List.not_mem_nil
      | cons _ _ => rfl
    rw [setKeyPool, notEmpty] at empty
    simp only [Bool.false_eq_true, if_false] at empty
    rw [empty] at inside
    exact absurd inside List.not_mem_nil
  | some nIndex =>
    have inside : w.At (.pool (w.setKeyPool fInternal)) nIndex := (List.min?_eq_some_iff.mp isMin).1
    obtain ⟨keypool, found, entry⟩ := sound.recorded _ _ inside
    have owned : keypool.vchPubKey ∈ (w.eraseFrom (w.setKeyPool fInternal) nIndex).keys := entry.owned
    have valid := sound.valid _ entry.owned
    have found' : (w.eraseFrom (w.setKeyPool fInternal) nIndex).pool.lookup nIndex = some keypool := found
    simp only [found', owned, not_true_eq_false, if_false, valid]
    by_cases split_ : (w.sets .preSplit).isEmpty = true
    · -- No keys from before the split: the record is of the side that was asked for.
      have noOne : ¬w.OnePreSplit := by
        rintro ⟨i, one⟩
        have := (one i).mpr rfl
        rw [List.isEmpty_iff.mp split_] at this
        exact absurd this List.not_mem_nil
      have side : keypool.fInternal = fInternal := by
        have fits := entry.fits
        rw [setKeyPool, split_] at fits
        cases fInternal <;> exact fits
      simp [side, noOne]
    · have place : w.setKeyPool fInternal = .preSplit := by
        rw [setKeyPool, if_neg split_]
      have external : keypool.fInternal = false := by
        have fits := entry.fits
        rw [place] at fits
        exact fits
      have last : ((w.eraseFrom .preSplit nIndex).sets .preSplit).isEmpty = true ↔ w.OnePreSplit := by
        simp only [eraseFrom, Function.update_self, List.isEmpty_iff, List.filter_eq_nil_iff, decide_eq_true_eq, not_not]
        rw [place] at inside
        constructor
        · exact fun same => ⟨nIndex, fun j => ⟨same j, fun isIndex => isIndex ▸ inside⟩⟩
        · rintro ⟨i, one⟩ j member
          exact ((one j).mp member).trans ((one nIndex).mp inside).symm
      rw [place, external]
      cases fInternal with
      | false => simp
      | true =>
        by_cases one : w.OnePreSplit
        · have := last.mpr one
          simp [this, one]
        · have := mt last.mp one
          simp [this, one]

theorem Shared.reserve (shared : w.Shared) (inside : i ∈ w.sets s) (positive : i ≠ -1) (idle : (w.reserveKeys a).nIndex = -1)
    (index : key.nIndex = i) : ((w.eraseFrom s i).setReserveKey a key).Shared := by
  obtain ⟨p, q, j, different, here, here'⟩ := shared
  have other : ∀ {p}, w.At p j → p ≠ .held a := by
    rintro p at_ rfl
    exact at_.2 (at_.1.symm.trans idle)
  by_cases same : j = i
  · subst same
    -- One of the two owners is not the set that the index is taken from.
    obtain ⟨r, notSet, hereR⟩ : ∃ r, r ≠ .pool s ∧ w.At r j := by
      by_cases isSet : p = .pool s
      · exact ⟨q, fun isSet' => different (isSet.trans isSet'.symm), here'⟩
      · exact ⟨p, isSet, here⟩
    refine ⟨r, .held a, j, other hereR, ?_, ?_⟩
    · exact at_setReserveKey.mpr (Or.inl ⟨other hereR, at_eraseFrom.mpr ⟨hereR, fun taken => notSet taken.1⟩⟩)
    · exact at_setReserveKey.mpr (Or.inr ⟨rfl, index, positive⟩)
  · refine ⟨p, q, j, different, ?_, ?_⟩
    · exact at_setReserveKey.mpr (Or.inl ⟨other here, at_eraseFrom.mpr ⟨here, fun taken => same taken.2⟩⟩)
    · exact at_setReserveKey.mpr (Or.inl ⟨other here', at_eraseFrom.mpr ⟨here', fun taken => same taken.2⟩⟩)

theorem Shared.not_holds_take (shared : w.Shared) (s : Pool) (i : Int) : ¬((w.eraseFrom s i).keepKey i).Holds := by
  obtain ⟨p, q, j, different, here, here'⟩ := shared
  have at_keepKey : ∀ {p j}, ((w.eraseFrom s i).keepKey i).At p j ↔ (w.eraseFrom s i).At p j := by
    intro p j
    cases p <;> exact Iff.rfl
  intro holds
  by_cases same : j = i
  · subst same
    obtain ⟨r, notSet, hereR⟩ : ∃ r, r ≠ .pool s ∧ w.At r j := by
      by_cases isSet : p = .pool s
      · exact ⟨q, fun isSet' => different (isSet.trans isSet'.symm), here'⟩
      · exact ⟨p, isSet, here⟩
    obtain ⟨keypool, found, _⟩ := holds.recorded r j (at_keepKey.mpr (at_eraseFrom.mpr ⟨hereR, fun taken => notSet taken.1⟩))
    rw [keepKey, StdMap.lookup_erase_ite, if_pos rfl] at found
    exact nomatch found
  · exact different (holds.apart p q j (at_keepKey.mpr (at_eraseFrom.mpr ⟨here, fun taken => same taken.2⟩))
      (at_keepKey.mpr (at_eraseFrom.mpr ⟨here', fun taken => same taken.2⟩)))

theorem reserveKeyFromKeyPool_eq (fInternal : Bool) (w : Wallet) : w.reserveKeyFromKeyPool source ctx fInternal =
    (w.topUpKeyPool source ctx 0).takeKey (fInternal && ctx.isHDEnabled) := by
  cases locked : ctx.isLocked <;> simp [reserveKeyFromKeyPool, topUpKeyPool, locked]

/-- A reservation finds the indices of its top-up free, and does not ask for an internal key when the last key from
before the split comes next. -/
def Reservable (ctx : Context) (fInternal : Bool) (w : Wallet) : Prop :=
  w.Free (missing ctx 0 w) ∧ ¬((fInternal && ctx.isHDEnabled) = true ∧ w.OnePreSplit)

theorem onePreSplit_topUp : (w.topUpKeyPool source ctx 0).OnePreSplit ↔ w.OnePreSplit := by
  unfold OnePreSplit
  rw [(topUpKeyPool_frame 0 w).1]

theorem Holds.of_record (holds : (w.record event).Holds) : w.Holds where
  apart := fun p q i here here' => holds.apart p q i (at_record.mpr here) (at_record.mpr here')
  recorded := fun p i here => holds.recorded p i (at_record.mpr here)
  keptOnce := (List.pairwise_cons.mp holds.keptOnce).2

section

variable (sound : w.Sound)

include sound

theorem Sound.returned (unkept : Event.kept key ∉ w.log) : (w.record (.returned key)).Sound := by
  apply sound.moved
  · rfl
  · intro q j here
    have before := at_record.mp here
    obtain ⟨keypool, found, entry⟩ := sound.recorded q j before
    refine ⟨q, keypool, keypool, before, found, found, rfl, entry.fits.congr fun _ _ => rfl, ?_⟩
    simpa [record] using entry.unkept
  · exact fun p q j here here' => sound.apart p q j (at_record.mp here) (at_record.mp here')
  · intro key kept
    exact sound.keptOwned key (by simpa [record] using kept)
  · refine List.pairwise_cons.mpr ⟨?_, sound.keptOnce⟩
    rintro _ member key rfl same
    obtain rfl := Event.returned.inj same
    exact unkept member

theorem Sound.getReservedKey (a : Nat) (fInternal : Bool) :
    (((w.reserveKeys a).nIndex = -1 → w.Reservable ctx fInternal) → SoundResult (w.getReservedKey source ctx a fInternal)) ∧
      (¬((w.reserveKeys a).nIndex = -1 → w.Reservable ctx fInternal) → ¬HoldsResult (w.getReservedKey source ctx a fInternal)) := by
  unfold Wallet.getReservedKey
  by_cases idle : (w.reserveKeys a).nIndex = -1
  · rw [if_pos idle, reserveKeyFromKeyPool_eq]
    simp only [idle, forall_const]
    have idle' : ((w.topUpKeyPool source ctx 0).reserveKeys a).nIndex = -1 := by
      rw [(topUpKeyPool_frame 0 w).2]
      exact idle
    obtain ⟨kept, shared⟩ := sound.topUpKeyPool source ctx 0
    constructor
    · rintro ⟨free, served⟩
      have sound' := kept free
      obtain ⟨result, done⟩ := (sound'.takeKey (fInternal && ctx.isHDEnabled)).mpr (by rw [onePreSplit_topUp]; exact served)
      rw [done]
      rcases takeKey_ok done with rfl | ⟨s, nIndex, keypool, rfl, inside, found⟩
      · exact sound'
      · exact sound'.reserve inside found a
    · intro unmet
      cases done : (w.topUpKeyPool source ctx 0).takeKey (fInternal && ctx.isHDEnabled) with
      | error e => exact fun holds => holds
      | ok result =>
        by_cases free : w.Free (missing ctx 0 w)
        · have served := ((kept free).takeKey (fInternal && ctx.isHDEnabled)).mp ⟨result, done⟩
          rw [onePreSplit_topUp] at served
          exact absurd ⟨free, served⟩ unmet
        · have shared' := shared free
          rcases takeKey_ok done with rfl | ⟨s, nIndex, keypool, rfl, inside, _⟩
          · exact shared'.not_holds
          · have positive := sound.positive.topUpKeyPool source ctx 0 s nIndex inside
            intro holds
            exact (shared'.reserve inside (by omega) idle' rfl).not_holds (Holds.of_record holds)
  · rw [if_neg idle]
    have held : w.At (.held a) (w.reserveKeys a).nIndex := ⟨rfl, idle⟩
    obtain ⟨keypool, found, entry⟩ := sound.recorded _ _ held
    have sameKey : (w.reserveKeys a).vchPubKey = keypool.vchPubKey := entry.fits.1
    rw [if_neg (by rw [sameKey]; exact sound.valid _ entry.owned)]
    refine ⟨fun _ => ?_, fun unmet => absurd (fun isIdle => absurd isIdle idle) unmet⟩
    exact sound.returned (by rw [sameKey]; exact entry.unkept)

theorem Sound.generateNewKey (fInternal : Bool) :
    ((w.generateNewKey source fInternal).2.record (.returned (w.generateNewKey source fInternal).1)).Sound := by
  have fresh := source.fresh w.keys fInternal
  have generated : (w.generateNewKey source fInternal).2.Sound := by
    have at_iff : ∀ {p i}, (w.generateNewKey source fInternal).2.At p i ↔ w.At p i := by
      intro p i
      cases p <;> exact Iff.rfl
    refine ⟨?_, ?_, ?_, ?_, ?_, sound.keptOnce⟩
    · intro p i here
      obtain ⟨keypool, found, entry⟩ := sound.recorded p i (at_iff.mp here)
      exact ⟨keypool, found, entry.positive, List.mem_cons_of_mem _ entry.owned, entry.unkept, entry.fits.congr fun _ _ => rfl⟩
    · exact fun p q i here here' => sound.apart p q i (at_iff.mp here) (at_iff.mp here')
    · exact fun p q i i' k k' here here' => sound.keysApart p q i i' k k' (at_iff.mp here) (at_iff.mp here')
    · intro key member
      rcases List.mem_cons.mp member with rfl | member
      · exact source.valid _ _
      · exact sound.valid key member
    · exact fun key kept => List.mem_cons_of_mem _ (sound.keptOwned key kept)
  exact generated.returned fun kept => fresh (sound.keptOwned _ kept)

theorem Sound.getKeyFromPool (fInternal : Bool) :
    (w.Reservable ctx fInternal → SoundResult (w.getKeyFromPool source ctx fInternal)) ∧
      (¬w.Reservable ctx fInternal → ¬HoldsResult (w.getKeyFromPool source ctx fInternal)) := by
  unfold Wallet.getKeyFromPool
  rw [reserveKeyFromKeyPool_eq]
  obtain ⟨kept, shared⟩ := sound.topUpKeyPool source ctx 0
  constructor
  · rintro ⟨free, served⟩
    have sound' := kept free
    obtain ⟨result, done⟩ := (sound'.takeKey (fInternal && ctx.isHDEnabled)).mpr (by rw [onePreSplit_topUp]; exact served)
    rw [done]
    rcases takeKey_ok done with rfl | ⟨s, nIndex, keypool, rfl, inside, found⟩
    · dsimp only
      split
      · exact sound'
      · exact sound'.generateNewKey fInternal
    · exact sound'.take inside found
  · intro unmet
    cases done : (w.topUpKeyPool source ctx 0).takeKey (fInternal && ctx.isHDEnabled) with
    | error e => exact fun holds => holds
    | ok result =>
      by_cases free : w.Free (missing ctx 0 w)
      · have served := ((kept free).takeKey (fInternal && ctx.isHDEnabled)).mp ⟨result, done⟩
        rw [onePreSplit_topUp] at served
        exact absurd ⟨free, served⟩ unmet
      · obtain ⟨p, q, i, different, here, here'⟩ := shared free
        rcases takeKey_ok done with rfl | ⟨s, nIndex, keypool, rfl, _, _⟩
        · dsimp only
          split
          · exact fun holds => different (holds.apart p q i here here')
          · intro holds
            have holds := Holds.of_record holds
            refine different (holds.apart p q i ?_ ?_)
            · cases p <;> exact here
            · cases q <;> exact here'
        · intro holds
          exact Shared.not_holds_take ⟨p, q, i, different, here, here'⟩ s nIndex (Holds.of_record (Holds.of_record holds))

theorem Sound.getOldestKeyInPool (some_ : w.sets s ≠ []) : ∃ nTime, w.getOldestKeyInPool s = .ok nTime := by
  unfold Wallet.getOldestKeyInPool
  cases isMin : (w.sets s).min? with
  | none => exact absurd (List.min?_eq_none_iff.mp isMin) some_
  | some nIndex =>
    obtain ⟨keypool, found, entry⟩ := sound.recorded (.pool s) nIndex (List.min?_eq_some_iff.mp isMin).1
    have valid := sound.valid _ entry.owned
    exact ⟨keypool.nTime, by simp [found, valid]⟩

theorem Sound.getOldestKeyPoolTime : (∃ nTime, w.getOldestKeyPoolTime = .ok nTime) ↔ w.sets .external ≠ [] := by
  unfold Wallet.getOldestKeyPoolTime
  constructor
  · rintro ⟨nTime, done⟩ empty
    have failed : w.getOldestKeyInPool .external = .error .emptySet := by simp [Wallet.getOldestKeyInPool, empty]
    rw [failed] at done
    exact nomatch done
  · intro some_
    obtain ⟨external, doneExternal⟩ := sound.getOldestKeyInPool some_
    rw [doneExternal]
    by_cases internal : (w.sets .internal).isEmpty = true
    · exact ⟨external, by simp [internal, bind, Except.bind, pure, Except.pure]⟩
    · obtain ⟨oldest, doneInternal⟩ := sound.getOldestKeyInPool (s := .internal) (by simpa using internal)
      by_cases split_ : (w.sets .preSplit).isEmpty = true
      · exact ⟨_, by simp [internal, doneInternal, split_, bind, Except.bind, pure, Except.pure]; rfl⟩
      · obtain ⟨oldest', doneSplit⟩ := sound.getOldestKeyInPool (s := .preSplit) (by simpa using split_)
        exact ⟨_, by simp [internal, doneInternal, split_, doneSplit, bind, Except.bind, pure, Except.pure]; rfl⟩

theorem Sound.newKeyPool (source : KeySource) (ctx : Context) :
    (w.erasePools.Free (missing ctx 0 w.erasePools) → (w.newKeyPool source ctx).Sound) ∧
      (¬w.erasePools.Free (missing ctx 0 w.erasePools) → (w.newKeyPool source ctx).Shared) :=
  sound.erasePools.topUpKeyPool source ctx 0

end

end Wallet

def loadFrom (w : Wallet) (entries : List ((_ : Int) × CKeyPool)) : Wallet :=
  entries.foldl (fun w entry => w.loadKeyPool entry.1 entry.2) w

theorem loadFrom_frame (w : Wallet) (entries : List ((_ : Int) × CKeyPool)) :
    (loadFrom w entries).pool = w.pool ∧ (loadFrom w entries).keys = w.keys ∧ (loadFrom w entries).log = w.log ∧
      (loadFrom w entries).reserveKeys = w.reserveKeys := by
  induction entries generalizing w with
  | nil => exact ⟨rfl, rfl, rfl, rfl⟩
  | cons entry rest ih => exact ih (w.loadKeyPool entry.1 entry.2)

theorem at_loadFrom (small : ∀ entry ∈ entries, 0 < entry.1 ∧ entry.1 < 2 ^ 31) : (loadFrom w entries).At p i ↔
      w.At p i ∨ ∃ keypool, ⟨i, keypool⟩ ∈ entries ∧ p = .pool (Wallet.side keypool.fInternal) := by
  induction entries generalizing w with
  | nil => simp [loadFrom]
  | cons entry rest ih =>
    obtain ⟨j, keypool⟩ := entry
    obtain ⟨positive, bounded⟩ := small ⟨j, keypool⟩ (by simp)
    have index : j.bmod (2 ^ 32) = j := Int.bmod_eq_of_le (by simp at *; omega) (by simp at *; omega)
    have first : (w.loadKeyPool j keypool).At p i ↔ w.At p i ∨ p = .pool (Wallet.side keypool.fInternal) ∧ i = j := by
      rw [Wallet.loadKeyPool, index]
      exact Wallet.at_insertInto
    show (loadFrom (w.loadKeyPool j keypool) rest).At p i ↔ _
    rw [ih fun entry member => small entry (List.mem_cons_of_mem _ member), first]
    constructor
    · rintro ((before | ⟨place, rfl⟩) | ⟨keypool', member, place⟩)
      · exact Or.inl before
      · exact Or.inr ⟨keypool, by simp, place⟩
      · exact Or.inr ⟨keypool', List.mem_cons_of_mem _ member, place⟩
    · rintro (before | ⟨keypool', member, place⟩)
      · exact Or.inl (Or.inl before)
      · rcases List.mem_cons.mp member with same | member
        · cases same
          exact Or.inl (Or.inr ⟨place, rfl⟩)
        · exact Or.inr ⟨keypool', member, place⟩

theorem File.load_sound (file : File) : file.load.Sound := by
  have frame := loadFrom_frame { sets := fun _ => [], pool := file.pool, keys := file.keys } file.pool.entries
  obtain ⟨pool, keys, log, reserved⟩ := frame
  have loaded : ∀ {p i}, file.load.At p i → ∃ keypool, file.pool.lookup i = some keypool ∧
      p = .pool (Wallet.side keypool.fInternal) := by
    intro p i here
    have small : ∀ entry ∈ file.pool.entries, 0 < entry.1 ∧ entry.1 < 2 ^ 31 := by
      rintro ⟨j, keypool⟩ member
      exact file.index j keypool (StdMap.mem_entries_iff.mp member)
    rcases (at_loadFrom small).mp here with before | ⟨keypool, member, place⟩
    · cases p with
      | pool s => exact absurd before List.not_mem_nil
      | held a => exact absurd before.1.symm before.2
    · exact ⟨keypool, StdMap.mem_entries_iff.mp member, place⟩
  refine ⟨?_, ?_, ?_, ?_, ?_, ?_⟩
  · intro p i here
    obtain ⟨keypool, found, rfl⟩ := loaded here
    refine ⟨keypool, ?_, (file.index i keypool found).1, ?_, ?_, ?_⟩
    · show (loadFrom _ _).pool.lookup i = _
      rw [pool]
      exact found
    · show _ ∈ (loadFrom _ _).keys
      rw [keys]
      exact file.owned i keypool found
    · show _ ∉ (loadFrom _ _).log
      rw [log]
      exact List.not_mem_nil
    · cases isInternal : keypool.fInternal <;> exact isInternal
  · intro p q i here here'
    obtain ⟨keypool, found, rfl⟩ := loaded here
    obtain ⟨keypool', found', rfl⟩ := loaded here'
    rw [found] at found'
    rw [Option.some.inj found']
  · intro p q i i' keypool keypool' _ _ found found' same
    have found : (loadFrom _ _).pool.lookup i = _ := found
    have found' : (loadFrom _ _).pool.lookup i' = _ := found'
    rw [pool] at found found'
    exact file.apart i keypool i' keypool' found found' same
  · show ∀ key ∈ (loadFrom _ _).keys, _
    rw [keys]
    exact file.valid
  · show ∀ key, _ ∈ (loadFrom _ _).log → _
    rw [log]
    exact fun key kept => absurd kept List.not_mem_nil
  · show (loadFrom _ _).log.Pairwise _
    rw [log]
    exact List.Pairwise.nil

def Safe : Except Throw Wallet → Context × Op → Prop
  | .error _, _ => True
  | .ok w, (ctx, .topUpKeyPool kpSize) => w.Free (Wallet.missing ctx kpSize w)
  | .ok w, (ctx, .getReservedKey a fInternal) => (w.reserveKeys a).nIndex = -1 → w.Reservable ctx fInternal
  | .ok w, (ctx, .getKeyFromPool fInternal) => w.Reservable ctx fInternal
  | .ok w, (ctx, .newKeyPool) => w.erasePools.Free (Wallet.missing ctx 0 w.erasePools)
  | .ok w, (_, .getOldestKeyPoolTime) => w.sets .external ≠ []
  | .ok _, (_, .keepKey _) => True
  | .ok _, (_, .returnKey _) => True
  | .ok _, (_, .markPreSplitKeys) => True

theorem step_sound (source : KeySource) (sound : SoundResult result) (d : Context × Op) :
    (Safe result d → SoundResult (step source result d)) ∧ (¬Safe result d → ¬HoldsResult (step source result d)) := by
  cases result with
  | error e => exact sound.elim
  | ok w =>
    have sound : w.Sound := sound
    obtain ⟨ctx, op⟩ := d
    cases op with
    | topUpKeyPool kpSize =>
      obtain ⟨kept, shared⟩ := sound.topUpKeyPool source ctx kpSize
      exact ⟨kept, fun taken => (shared taken).not_holds⟩
    | getReservedKey a fInternal => exact sound.getReservedKey a fInternal
    | keepKey a => exact ⟨fun _ => sound.keepReserved a, fun unmet => absurd trivial unmet⟩
    | returnKey a => exact ⟨fun _ => sound.returnReserved a, fun unmet => absurd trivial unmet⟩
    | getKeyFromPool fInternal => exact sound.getKeyFromPool fInternal
    | newKeyPool =>
      obtain ⟨kept, shared⟩ := sound.newKeyPool source ctx
      exact ⟨kept, fun taken => (shared taken).not_holds⟩
    | markPreSplitKeys =>
      refine ⟨fun _ => ?_, fun unmet => absurd trivial unmet⟩
      obtain ⟨w', done, sound'⟩ := sound.markPreSplitKeys
      show SoundResult w.markPreSplitKeys
      rw [done]
      exact sound'
    | getOldestKeyPoolTime =>
      have asked := sound.getOldestKeyPoolTime
      constructor
      · intro some_
        obtain ⟨nTime, done⟩ := asked.mpr some_
        show SoundResult (w.getOldestKeyPoolTime.map _)
        rw [done]
        exact sound
      · intro none_
        show ¬HoldsResult (w.getOldestKeyPoolTime.map _)
        cases done : w.getOldestKeyPoolTime with
        | error e => exact fun holds => holds
        | ok nTime => exact absurd (asked.mp ⟨nTime, done⟩) none_

/-- Throughout a run every index has one owner and a record of a key of the wallet, nothing is thrown and no kept key
comes back, exactly when every call finds what it asks for. -/
theorem pool_holds_iff_safe (source : KeySource) (file : File) (ops : List (Context × Op)) :
    (∀ before, before <+: ops → HoldsResult (run source file before)) ↔
      ∀ before d, before ++ [d] <+: ops → Safe (run source file before) d := by
  apply Run.holds_iff_meets SoundResult HoldsResult (show SoundResult (.ok file.load) from file.load_sound)
  · intro result sound
    cases result with
    | error e => exact sound
    | ok w => exact Wallet.Sound.holds sound
  · exact fun result d sound => (step_sound source sound d).1
  · exact fun result d sound => (step_sound source sound d).2

def emptyFile : File where
  pool := ∅
  keys := []
  index := by simp
  owned := by simp
  apart := by simp
  valid := by simp

def oneKey : Context := { isLocked := false, isHDEnabled := false, keypool := 1, getTime := 0 }

/-- Two objects that reserve a key of a pool of one get the same index, and so do an old key and the first new one after
the upgrade to a split pool. -/
theorem index_given_twice :
    ¬HoldsResult (run longerKeys emptyFile [(oneKey, .getReservedKey 0 false), (oneKey, .getReservedKey 1 false)]) ∧
      ¬HoldsResult (run longerKeys emptyFile [(oneKey, .topUpKeyPool 0), (oneKey, .markPreSplitKeys), (oneKey, .topUpKeyPool 0)]) := by
  constructor
  · intro holds
    exact nomatch holds.apart (.held 0) (.held 1) 1 ⟨rfl, by decide⟩ ⟨rfl, by decide⟩
  · intro holds
    exact nomatch holds.apart (.pool .preSplit) (.pool .external) 1 (List.mem_singleton.mpr rfl) (List.mem_singleton.mpr rfl)

end KeyPool

end SchillingCoin
