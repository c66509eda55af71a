import SchillingCoin.Wallet.Encryption

/-!
Unlocking a wallet and changing its passphrase, after `Unlock` and `ChangeWalletPassphrase` of `wallet.cpp`: what a call leaves behind
that fails.
-/

namespace SchillingCoin

/-- What the calls find in the world: the rounds that their timing asks for, and what a failed encryption leaves in its output. -/
structure ChangeOutcome where
  nDeriveIterations : Nat
  vchCiphertext : valtype

structure StakingWallet extends WalletKeys where
  fWalletUnlockStaking : Bool := false

namespace WalletKeys

variable (f : KeyFunctions) (cipher : Cipher)

def recryptMasterKey (strNewWalletPassphrase : valtype) (outcome : ChangeOutcome) (vMasterKey : valtype) (kMasterKey : CMasterKey) :
    Bool × CMasterKey :=
  let kMasterKey := { kMasterKey with nDeriveIterations := max outcome.nDeriveIterations 25000 }
  match cipher.setKeyFromPassphrase strNewWalletPassphrase kMasterKey.vchSalt kMasterKey.nDeriveIterations kMasterKey.nDerivationMethod with
  | none => (false, kMasterKey)
  | some (chKey, chIV) =>
    match cipher.encrypt chKey chIV vMasterKey with
    | none => (false, { kMasterKey with vchCryptedKey := outcome.vchCiphertext })
    | some vchCryptedKey => (true, { kMasterKey with vchCryptedKey })

/-- The loop of `ChangeWalletPassphrase`, with the master keys that it has passed. -/
def changeFrom (strOldWalletPassphrase strNewWalletPassphrase : valtype) (outcome : ChangeOutcome) (fWasLocked : Bool) :
    List CMasterKey → List CMasterKey → WalletKeys → Except KeyThrow (Bool × WalletKeys)
  | _, [], w => .ok (false, w)
  | passed, kMasterKey :: rest, w =>
    match cipher.setKeyFromPassphrase strOldWalletPassphrase kMasterKey.vchSalt kMasterKey.nDeriveIterations
        kMasterKey.nDerivationMethod with
    | none => .ok (false, w)
    | some (chKey, chIV) =>
      match cipher.decrypt chKey chIV kMasterKey.vchCryptedKey with
      | none => .ok (false, w)
      | some vMasterKey =>
        match w.unlockWith f cipher vMasterKey with
        | .error e => .error e
        | .ok (false, w) =>
          changeFrom strOldWalletPassphrase strNewWalletPassphrase outcome fWasLocked (passed ++ [kMasterKey]) rest w
        | .ok (true, w) =>
          let changed := recryptMasterKey cipher strNewWalletPassphrase outcome vMasterKey kMasterKey
          let w := { w with mapMasterKeys := passed ++ changed.2 :: rest }
          .ok (changed.1, if changed.1 && fWasLocked then w.lock else w)

def changeWalletPassphrase (strOldWalletPassphrase strNewWalletPassphrase : valtype) (outcome : ChangeOutcome) (w : WalletKeys) :
    Except KeyThrow (Bool × WalletKeys) :=
  changeFrom f cipher strOldWalletPassphrase strNewWalletPassphrase outcome w.isLocked [] w.mapMasterKeys w.lock

end WalletKeys

namespace StakingWallet

variable (f : KeyFunctions) (cipher : Cipher)

def unlock (strWalletPassphrase : valtype) (stakingOnly : Bool) (w : StakingWallet) : Except KeyThrow (Bool × StakingWallet) :=
  (w.toWalletKeys.unlock f cipher strWalletPassphrase).map fun result =>
    (result.1, { toWalletKeys := result.2, fWalletUnlockStaking := if result.1 then stakingOnly else w.fWalletUnlockStaking })

def changeWalletPassphrase (strOldWalletPassphrase strNewWalletPassphrase : valtype) (outcome : ChangeOutcome) (w : StakingWallet) :
    Except KeyThrow (Bool × StakingWallet) :=
  (w.toWalletKeys.changeWalletPassphrase f cipher strOldWalletPassphrase strNewWalletPassphrase outcome).map fun result =>
    (result.1, { w with toWalletKeys := result.2 })

end StakingWallet

namespace WalletKeys

variable (f : KeyFunctions) (cipher : Cipher)

inductive Trial where
  /-- No key comes of the passphrase. -/
  | underived
  | undecrypted
  /-- Some keys decrypt, but not all. -/
  | corrupt
  | wrongKeys
  /-- The keys decrypt, if there are any, but the chain does not. -/
  | wrongChain
  | fits (vMasterKey : valtype)
  deriving DecidableEq

def chainPasses (w : WalletKeys) (vMasterKey : valtype) : Bool :=
  w.cryptedHDChain.isNull || (({ w with vMasterKey := vMasterKey } : WalletKeys).decryptHDChain f cipher {}).any
    fun hdChainTmp => w.cryptedHDChain.id == hdChainTmp.getSeedHash f

def judge (w : WalletKeys) (vMasterKey : valtype) : Trial :=
  let (keyPass, keyFail) := tryKeys f cipher vMasterKey w.fDecryptionThoroughlyChecked (w.mapCryptedKeys.entries.map Sigma.snd) false
  if keyPass && keyFail then .corrupt
  else if keyFail || (!keyPass && w.cryptedHDChain.isNull) then .wrongKeys
  else if w.chainPasses f cipher vMasterKey then .fits vMasterKey
  else .wrongChain

def trial (w : WalletKeys) (strWalletPassphrase : valtype) (kMasterKey : CMasterKey) : Trial :=
  match cipher.setKeyFromPassphrase strWalletPassphrase kMasterKey.vchSalt kMasterKey.nDeriveIterations kMasterKey.nDerivationMethod with
  | none => .underived
  | some (chKey, chIV) =>
    match cipher.decrypt chKey chIV kMasterKey.vchCryptedKey with
    | none => .undecrypted
    | some vMasterKey => w.judge f cipher vMasterKey

def Trial.endsUnlock : Trial → Bool
  | .underived | .corrupt | .fits _ => true
  | _ => false

def Trial.endsChange : Trial → Bool
  | .underived | .undecrypted | .corrupt | .fits _ => true
  | _ => false

theorem Trial.endsChange_of_endsUnlock (t : Trial) (ends : t.endsUnlock = true) : t.endsChange = true := by
  cases t <;> first | rfl | exact nomatch ends

variable {f cipher} {w : WalletKeys}

theorem unlockWith_judge (crypto : w.fUseCrypto = true) (vMasterKey : valtype) :
    w.unlockWith f cipher vMasterKey = match w.judge f cipher vMasterKey with
      | .corrupt => .error .runtimeError
      | .fits _ => .ok (true, w.unlockedWith vMasterKey)
      | .wrongChain => .ok (false, { w with vMasterKey := [] })
      | _ => .ok (false, w) := by
  unfold WalletKeys.unlockWith judge
  simp only [setCrypted, if_pos crypto]
  split
  · rfl
  · split
    · rfl
    · show (if (!w.chainPasses f cipher vMasterKey) = true then _ else _) = _
      cases w.chainPasses f cipher vMasterKey <;> rfl

theorem judge_cases (w : WalletKeys) (vMasterKey : valtype) : w.judge f cipher vMasterKey = .corrupt ∨
    w.judge f cipher vMasterKey = .wrongKeys ∨ w.judge f cipher vMasterKey = .wrongChain ∨
      w.judge f cipher vMasterKey = .fits vMasterKey := by
  unfold judge
  dsimp only
  split_ifs <;> simp

variable {vMasterKey : valtype} {kMasterKey : CMasterKey} {ks : List CMasterKey}

theorem trial_fits (fits : w.trial f cipher strWalletPassphrase kMasterKey = .fits vMasterKey) :
    w.judge f cipher vMasterKey = .fits vMasterKey := by
  unfold trial at fits
  split at fits
  · exact nomatch fits
  · split at fits
    · exact nomatch fits
    · next opened _ =>
      rcases w.judge_cases opened with judged | judged | judged | judged <;> rw [judged] at fits
      · exact nomatch fits
      · exact nomatch fits
      · exact nomatch fits
      · rw [← Trial.fits.inj fits]
        exact judged

theorem unlockFrom_cons (crypto : w.fUseCrypto = true) (strWalletPassphrase : valtype) (kMasterKey : CMasterKey) (rest : List CMasterKey) :
    w.unlockFrom f cipher strWalletPassphrase (kMasterKey :: rest) = match w.trial f cipher strWalletPassphrase kMasterKey with
      | .underived => .ok (false, w)
      | .corrupt => .error .runtimeError
      | .fits vMasterKey => .ok (true, w.unlockedWith vMasterKey)
      | .wrongChain => unlockFrom f cipher strWalletPassphrase rest { w with vMasterKey := [] }
      | _ => w.unlockFrom f cipher strWalletPassphrase rest := by
  conv_lhs => unfold unlockFrom
  unfold trial
  cases cipher.setKeyFromPassphrase strWalletPassphrase kMasterKey.vchSalt kMasterKey.nDeriveIterations kMasterKey.nDerivationMethod with
  | none => rfl
  | some derived =>
    dsimp only
    cases cipher.decrypt derived.1 derived.2 kMasterKey.vchCryptedKey with
    | none => rfl
    | some vMasterKey =>
      dsimp only
      rw [unlockWith_judge crypto]
      rcases w.judge_cases vMasterKey with judged | judged | judged | judged <;> rw [judged]

theorem changeFrom_cons (crypto : w.fUseCrypto = true) (strOld strNew : valtype) (outcome : ChangeOutcome) (fWasLocked : Bool)
    (passed : List CMasterKey) (kMasterKey : CMasterKey) (rest : List CMasterKey) :
    w.changeFrom f cipher strOld strNew outcome fWasLocked passed (kMasterKey :: rest) =
      match w.trial f cipher strOld kMasterKey with
      | .underived | .undecrypted => .ok (false, w)
      | .corrupt => .error .runtimeError
      | .wrongKeys => w.changeFrom f cipher strOld strNew outcome fWasLocked (passed ++ [kMasterKey]) rest
      | .wrongChain => changeFrom f cipher strOld strNew outcome fWasLocked (passed ++ [kMasterKey]) rest { w with vMasterKey := [] }
      | .fits vMasterKey =>
        let changed := recryptMasterKey cipher strNew outcome vMasterKey kMasterKey
        let w := { w.unlockedWith vMasterKey with mapMasterKeys := passed ++ changed.2 :: rest }
        .ok (changed.1, if changed.1 && fWasLocked then w.lock else w) := by
  conv_lhs => unfold changeFrom
  unfold trial
  cases cipher.setKeyFromPassphrase strOld kMasterKey.vchSalt kMasterKey.nDeriveIterations kMasterKey.nDerivationMethod with
  | none => rfl
  | some derived =>
    dsimp only
    cases cipher.decrypt derived.1 derived.2 kMasterKey.vchCryptedKey with
    | none => rfl
    | some vMasterKey =>
      dsimp only
      rw [unlockWith_judge crypto]
      rcases w.judge_cases vMasterKey with judged | judged | judged | judged <;> rw [judged]

/-- The chain does not decrypt under one of the master keys that `Unlock` tries before it ends. -/
def Trial.mismatched (trials : List Trial) : Bool := (trials.takeWhile fun t => !t.endsUnlock).contains .wrongChain

def unlockEnd (w : WalletKeys) (last : Option Trial) (mismatched : Bool) : Except KeyThrow (Bool × WalletKeys) :=
  match last with
  | some .corrupt => .error .runtimeError
  | some (.fits vMasterKey) => .ok (true, w.unlockedWith vMasterKey)
  | _ => .ok (false, if mismatched then { w with vMasterKey := [] } else w)

theorem unlockFrom_trials (crypto : w.fUseCrypto = true) (strWalletPassphrase : valtype) (ks : List CMasterKey) :
    w.unlockFrom f cipher strWalletPassphrase ks =
      w.unlockEnd ((ks.map (w.trial f cipher strWalletPassphrase)).find? Trial.endsUnlock)
        (Trial.mismatched (ks.map (w.trial f cipher strWalletPassphrase))) := by
  induction ks generalizing w with
  | nil => rfl
  | cons kMasterKey rest ih =>
    rw [unlockFrom_cons crypto, List.map_cons]
    cases w.trial f cipher strWalletPassphrase kMasterKey with
    | underived => rfl
    | corrupt => rfl
    | fits vMasterKey => rfl
    | undecrypted => exact ih crypto
    | wrongKeys => exact ih crypto
    | wrongChain =>
      have cleared := @ih { w with vMasterKey := [] } crypto
      have same : trial f cipher { w with vMasterKey := [] } strWalletPassphrase = w.trial f cipher strWalletPassphrase := rfl
      have mismatch : Trial.mismatched (.wrongChain :: rest.map (w.trial f cipher strWalletPassphrase)) = true := rfl
      rw [same] at cleared
      rw [cleared, mismatch]
      show unlockEnd _ _ _ = w.unlockEnd ((rest.map _).find? _) true
      unfold unlockEnd
      split
      · rfl
      · rfl
      · split <;> rfl

structure Reaches (f : KeyFunctions) (cipher : Cipher) (w : WalletKeys) (strOld : valtype) (ks passed : List CMasterKey)
    (kMasterKey : CMasterKey) (rest : List CMasterKey) (vMasterKey : valtype) : Prop where
  split : ks = passed ++ kMasterKey :: rest
  passes : ∀ k ∈ passed, (w.trial f cipher strOld k).endsChange = false
  fits : w.trial f cipher strOld kMasterKey = .fits vMasterKey

theorem changeFrom_trials (crypto : w.fUseCrypto = true) (locked : w.vMasterKey = []) (strOld strNew : valtype) (outcome : ChangeOutcome)
    (fWasLocked : Bool) (passed ks : List CMasterKey) :
    (ks.map (w.trial f cipher strOld)).find? Trial.endsChange = some .corrupt ∧
        w.changeFrom f cipher strOld strNew outcome fWasLocked passed ks = .error .runtimeError ∨
      (ks.map (w.trial f cipher strOld)).find? Trial.endsChange ∈ [none, some .underived, some .undecrypted] ∧
        w.changeFrom f cipher strOld strNew outcome fWasLocked passed ks = .ok (false, w) ∨
      ∃ mid kMasterKey rest vMasterKey, Reaches f cipher w strOld ks mid kMasterKey rest vMasterKey ∧
        w.changeFrom f cipher strOld strNew outcome fWasLocked passed ks =
          let changed := recryptMasterKey cipher strNew outcome vMasterKey kMasterKey
          let w := { w.unlockedWith vMasterKey with mapMasterKeys := passed ++ mid ++ changed.2 :: rest }
          .ok (changed.1, if changed.1 && fWasLocked then w.lock else w) := by
  induction ks generalizing passed with
  | nil => exact Or.inr (Or.inl ⟨by simp, rfl⟩)
  | cons kMasterKey rest ih =>
    have unlocked : ({ w with vMasterKey := [] } : WalletKeys) = w := by rw [← locked]
    rw [changeFrom_cons crypto, unlocked, List.map_cons, List.find?_cons]
    -- A master key that does not end the loop is one more that is passed.
    have passOn (goesOn : (w.trial f cipher strOld kMasterKey).endsChange = false) :
        (∃ mid k rest' vMasterKey, Reaches f cipher w strOld rest mid k rest' vMasterKey ∧
          w.changeFrom f cipher strOld strNew outcome fWasLocked (passed ++ [kMasterKey]) rest =
            let changed := recryptMasterKey cipher strNew outcome vMasterKey k
            let w := { w.unlockedWith vMasterKey with mapMasterKeys := passed ++ [kMasterKey] ++ mid ++ changed.2 :: rest' }
            .ok (changed.1, if changed.1 && fWasLocked then w.lock else w)) →
        ∃ mid k rest' vMasterKey, Reaches f cipher w strOld (kMasterKey :: rest) mid k rest' vMasterKey ∧
          w.changeFrom f cipher strOld strNew outcome fWasLocked (passed ++ [kMasterKey]) rest =
            let changed := recryptMasterKey cipher strNew outcome vMasterKey k
            let w := { w.unlockedWith vMasterKey with mapMasterKeys := passed ++ mid ++ changed.2 :: rest' }
            .ok (changed.1, if changed.1 && fWasLocked then w.lock else w) := by
      rintro ⟨mid, k, rest', vMasterKey, opens, done⟩
      refine ⟨kMasterKey :: mid, k, rest', vMasterKey, ⟨?_, ?_, opens.fits⟩, ?_⟩
      · rw [opens.split, List.cons_append]
      · intro j member
        rcases List.mem_cons.mp member with rfl | member
        · exact goesOn
        · exact opens.passes j member
      · rw [done, List.append_assoc passed]
        rfl
    cases tried : w.trial f cipher strOld kMasterKey with
    | underived => exact Or.inr (Or.inl ⟨by simp [Trial.endsChange], rfl⟩)
    | undecrypted => exact Or.inr (Or.inl ⟨by simp [Trial.endsChange], rfl⟩)
    | corrupt => exact Or.inl ⟨rfl, rfl⟩
    | fits vMasterKey =>
      refine Or.inr (Or.inr ⟨[], kMasterKey, rest, vMasterKey, ⟨rfl, fun k member => absurd member List.not_mem_nil, tried⟩, ?_⟩)
      rw [List.append_nil]
    | wrongKeys => exact (ih (passed ++ [kMasterKey])).imp_right (Or.imp_right (passOn (by rw [tried]; rfl)))
    | wrongChain => exact (ih (passed ++ [kMasterKey])).imp_right (Or.imp_right (passOn (by rw [tried]; rfl)))

theorem tryKeys_pass (vMasterKey : valtype) (entries : List (CPubKey × valtype)) :
    (tryKeys f cipher vMasterKey false entries true).1 = true := by
  induction entries with
  | nil => rfl
  | cons entry rest ih =>
    unfold tryKeys
    split
    · rfl
    · split
      · rfl
      · exact ih

theorem judge_checked (vMasterKey : valtype) (notCorrupt : w.judge f cipher vMasterKey ≠ .corrupt) :
    ({ w with fDecryptionThoroughlyChecked := true } : WalletKeys).judge f cipher vMasterKey = w.judge f cipher vMasterKey := by
  cases already : w.fDecryptionThoroughlyChecked with
  | true =>
    have same : ({ w with fDecryptionThoroughlyChecked := true } : WalletKeys) = w := by rw [← already]
    rw [same]
  | false =>
    have verdict : tryKeys f cipher vMasterKey true (w.mapCryptedKeys.entries.map Sigma.snd) false =
        tryKeys f cipher vMasterKey false (w.mapCryptedKeys.entries.map Sigma.snd) false := by
      unfold judge at notCorrupt
      rw [already] at notCorrupt
      cases entries : w.mapCryptedKeys.entries.map Sigma.snd with
      | nil => rfl
      | cons entry rest =>
        rw [entries] at notCorrupt
        unfold tryKeys at notCorrupt ⊢
        cases opened : decryptKey f cipher vMasterKey entry with
        | none => rfl
        | some key =>
          rw [opened] at notCorrupt
          dsimp only at notCorrupt ⊢
          by_cases other : f.getPubKey key ≠ entry.1
          · rw [if_pos other, if_pos other]
          · rw [if_neg other] at notCorrupt ⊢
            rw [if_neg other, if_pos rfl, if_neg Bool.false_ne_true]
            rw [if_neg Bool.false_ne_true] at notCorrupt
            have pass : (tryKeys f cipher vMasterKey false rest true).1 = true := tryKeys_pass vMasterKey rest
            generalize tryKeys f cipher vMasterKey false rest true = result at *
            obtain ⟨keyPass, keyFail⟩ := result
            cases keyFail with
            | true => exact absurd (by rw [if_pos (by simpa using pass)]) notCorrupt
            | false => rw [show keyPass = true from pass]
    unfold judge
    dsimp only
    rw [verdict, already]
    rfl

theorem trial_checked (strWalletPassphrase : valtype) (kMasterKey : CMasterKey)
    (notCorrupt : w.trial f cipher strWalletPassphrase kMasterKey ≠ .corrupt) :
    ({ w with fDecryptionThoroughlyChecked := true } : WalletKeys).trial f cipher strWalletPassphrase kMasterKey =
      w.trial f cipher strWalletPassphrase kMasterKey := by
  unfold trial at *
  cases derived : cipher.setKeyFromPassphrase strWalletPassphrase kMasterKey.vchSalt kMasterKey.nDeriveIterations
      kMasterKey.nDerivationMethod with
  | none => rfl
  | some chKey =>
    rw [derived] at notCorrupt
    dsimp only at *
    cases opened : cipher.decrypt chKey.1 chKey.2 kMasterKey.vchCryptedKey with
    | none => rfl
    | some vMasterKey =>
      rw [opened] at notCorrupt
      exact judge_checked vMasterKey notCorrupt

theorem find_fits (found : (ks.map (w.trial f cipher strWalletPassphrase)).find? Trial.endsUnlock = some (.fits vMasterKey))
    (same : ∀ k, w.trial f cipher strWalletPassphrase k ≠ .corrupt → trials k = w.trial f cipher strWalletPassphrase k) :
    (ks.map trials).find? Trial.endsUnlock = some (.fits vMasterKey) := by
  induction ks with
  | nil => exact nomatch found
  | cons k rest ih =>
    rw [List.map_cons, List.find?_cons] at found ⊢
    have notCorrupt : w.trial f cipher strWalletPassphrase k ≠ .corrupt := by
      intro corrupt
      rw [corrupt] at found
      exact nomatch found
    rw [same k notCorrupt]
    cases ends : (w.trial f cipher strWalletPassphrase k).endsUnlock with
    | true =>
      rw [ends] at found
      exact found
    | false =>
      rw [ends] at found
      exact ih found

theorem unlock_trials (crypto : w.fUseCrypto = true) (strWalletPassphrase : valtype) :
    w.unlock f cipher strWalletPassphrase =
      w.unlockEnd ((w.mapMasterKeys.map (w.trial f cipher strWalletPassphrase)).find? Trial.endsUnlock)
        (Trial.mismatched (w.mapMasterKeys.map (w.trial f cipher strWalletPassphrase))) :=
  unlockFrom_trials crypto strWalletPassphrase w.mapMasterKeys

def rekeyed (w : WalletKeys) (passed rest : List CMasterKey) (vMasterKey : valtype) (changed : Bool × CMasterKey) : WalletKeys :=
  { w with
    vMasterKey := if changed.1 && w.isLocked then [] else vMasterKey
    fDecryptionThoroughlyChecked := true
    mapMasterKeys := passed ++ changed.2 :: rest }

theorem changeWalletPassphrase_trials (crypto : w.fUseCrypto = true) (strOld strNew : valtype) (outcome : ChangeOutcome) :
    (w.mapMasterKeys.map (w.trial f cipher strOld)).find? Trial.endsChange = some .corrupt ∧
        w.changeWalletPassphrase f cipher strOld strNew outcome = .error .runtimeError ∨
      (w.mapMasterKeys.map (w.trial f cipher strOld)).find? Trial.endsChange ∈ [none, some .underived, some .undecrypted] ∧
        w.changeWalletPassphrase f cipher strOld strNew outcome = .ok (false, { w with vMasterKey := [] }) ∨
      ∃ passed kMasterKey rest vMasterKey, Reaches f cipher w strOld w.mapMasterKeys passed kMasterKey rest vMasterKey ∧
        w.changeWalletPassphrase f cipher strOld strNew outcome =
          .ok ((recryptMasterKey cipher strNew outcome vMasterKey kMasterKey).1,
            w.rekeyed passed rest vMasterKey (recryptMasterKey cipher strNew outcome vMasterKey kMasterKey)) := by
  have lock : w.lock = { w with vMasterKey := [] } := by simp only [WalletKeys.lock, setCrypted, if_pos crypto]
  have same : trial f cipher { w with vMasterKey := [] } strOld = w.trial f cipher strOld := rfl
  have cases_ := @changeFrom_trials f cipher { w with vMasterKey := [] } crypto rfl strOld strNew outcome w.isLocked [] w.mapMasterKeys
  rw [same] at cases_
  unfold changeWalletPassphrase
  rw [lock]
  rcases cases_ with corrupt | refused | ⟨passed, kMasterKey, rest, vMasterKey, reaches, done⟩
  · exact Or.inl corrupt
  · exact Or.inr (Or.inl refused)
  · refine Or.inr (Or.inr ⟨passed, kMasterKey, rest, vMasterKey, ⟨reaches.split, reaches.passes, reaches.fits⟩, ?_⟩)
    rw [done, List.nil_append]
    generalize recryptMasterKey cipher strNew outcome vMasterKey kMasterKey = changed
    dsimp only
    unfold rekeyed
    cases relocks : changed.1 && w.isLocked with
    | true =>
      simp only [WalletKeys.lock, setCrypted, unlockedWith, crypto, if_true]
    | false => rfl

theorem Reaches.find (reaches : Reaches f cipher w strOld ks passed kMasterKey rest vMasterKey) (ends : Trial → Bool)
    (fewer : ∀ t, ends t = true → t.endsChange = true) (fits : ends (.fits vMasterKey) = true) :
    (ks.map (w.trial f cipher strOld)).find? ends = some (.fits vMasterKey) := by
  have none : (passed.map (w.trial f cipher strOld)).find? ends = none := by
    apply List.find?_eq_none.mpr
    intro t member isEnd
    obtain ⟨k, inside, rfl⟩ := List.mem_map.mp member
    have passes := reaches.passes k inside
    rw [fewer _ isEnd] at passes
    exact nomatch passes
  rw [reaches.split, List.map_append, List.find?_append, none, List.map_cons, reaches.fits, List.find?_cons, fits]
  rfl

theorem Reaches.unique (reaches : Reaches f cipher w strOld ks passed kMasterKey rest vMasterKey)
    (reaches' : Reaches f cipher w strOld ks passed' kMasterKey' rest' vMasterKey') :
    passed = passed' ∧ kMasterKey = kMasterKey' ∧ rest = rest' ∧ vMasterKey = vMasterKey' := by
  -- A master key that is passed fits nothing.
  have stops : ∀ k m, w.trial f cipher strOld k = .fits m → (w.trial f cipher strOld k).endsChange = false → False := by
    intro k m fits passes
    rw [fits] at passes
    exact nomatch passes
  induction passed generalizing ks passed' with
  | nil =>
    have same := reaches.split.symm.trans reaches'.split
    cases passed' with
    | nil =>
      obtain ⟨rfl, rfl⟩ := List.cons.inj same
      exact ⟨rfl, rfl, rfl, Trial.fits.inj (reaches.fits.symm.trans reaches'.fits)⟩
    | cons j passed' =>
      obtain ⟨rfl, _⟩ := List.cons.inj same
      exact (stops _ _ reaches.fits (reaches'.passes _ List.mem_cons_self)).elim
  | cons i passed ih =>
    have same := reaches.split.symm.trans reaches'.split
    cases passed' with
    | nil =>
      obtain ⟨rfl, _⟩ := List.cons.inj same
      exact (stops _ _ reaches'.fits (reaches.passes _ List.mem_cons_self)).elim
    | cons j passed' =>
      obtain ⟨rfl, sameRest⟩ := List.cons.inj same
      obtain ⟨rfl, others⟩ := ih ⟨rfl, fun k member => reaches.passes k (List.mem_cons_of_mem _ member), reaches.fits⟩
        ⟨sameRest, fun k member => reaches'.passes k (List.mem_cons_of_mem _ member), reaches'.fits⟩
      exact ⟨rfl, others⟩

theorem trial_recrypted
    (inverts : ∀ key iv plain crypted, cipher.encrypt key iv plain = some crypted → cipher.decrypt key iv crypted = some plain)
    (good : (recryptMasterKey cipher strNew outcome vMasterKey kMasterKey).1 = true) :
    w.trial f cipher strNew (recryptMasterKey cipher strNew outcome vMasterKey kMasterKey).2 = w.judge f cipher vMasterKey := by
  unfold recryptMasterKey at good ⊢
  dsimp only at good ⊢
  cases derived : cipher.setKeyFromPassphrase strNew kMasterKey.vchSalt (max outcome.nDeriveIterations 25000)
      kMasterKey.nDerivationMethod with
  | none =>
    rw [derived] at good
    exact nomatch good
  | some chKey =>
    rw [derived] at good
    dsimp only at good ⊢
    cases encrypted : cipher.encrypt chKey.1 chKey.2 vMasterKey with
    | none =>
      rw [encrypted] at good
      exact nomatch good
    | some vchCryptedKey =>
      unfold trial
      dsimp only
      rw [derived]
      dsimp only
      rw [inverts _ _ _ _ encrypted]

theorem unlockEnd_true (unlocked : w.unlockEnd last mismatched = .ok (true, w')) :
    ∃ vMasterKey, last = some (.fits vMasterKey) ∧ w' = w.unlockedWith vMasterKey := by
  unfold unlockEnd at unlocked
  split at unlocked
  · exact nomatch unlocked
  · next vMasterKey =>
    cases unlocked
    exact ⟨vMasterKey, rfl, rfl⟩
  · exact nomatch unlocked

end WalletKeys

theorem map_eq_ok {g : α → β} {x : Except KeyThrow α} {y : β} : x.map g = .ok y ↔ ∃ r, x = .ok r ∧ g r = y := by
  cases x with
  | error e => exact ⟨fun h => (nomatch h), fun ⟨_, h, _⟩ => (nomatch h)⟩
  | ok r =>
    constructor
    · exact fun h => ⟨r, rfl, Except.ok.inj h⟩
    · rintro ⟨_, ⟨⟩, rfl⟩
      rfl

namespace StakingWallet

variable (f : KeyFunctions) (cipher : Cipher)

/-- Nothing of the lock state and of the master keys is different, and every passphrase that unlocked the wallet still does. -/
structure Unharmed (w w' : StakingWallet) : Prop where
  vMasterKey : w'.vMasterKey = w.vMasterKey
  staking : w'.fWalletUnlockStaking = w.fWalletUnlockStaking
  masterKeys : w'.mapMasterKeys = w.mapMasterKeys
  passphrases : ∀ strWalletPassphrase stakingOnly, (∃ u, w.unlock f cipher strWalletPassphrase stakingOnly = .ok (true, u)) →
    ∃ u, w'.unlock f cipher strWalletPassphrase stakingOnly = .ok (true, u)

structure Attempt where
  strWalletPassphrase : valtype
  stakingOnly : Bool
  strOldWalletPassphrase : valtype
  strNewWalletPassphrase : valtype
  outcome : ChangeOutcome

structure FailsCleanly (w : StakingWallet) (a : Attempt) : Prop where
  unlock : ∀ w', w.unlock f cipher a.strWalletPassphrase a.stakingOnly = .ok (false, w') → Unharmed f cipher w w'
  change : ∀ w', w.changeWalletPassphrase f cipher a.strOldWalletPassphrase a.strNewWalletPassphrase a.outcome = .ok (false, w') →
    Unharmed f cipher w w'
  changed : ∀ w', w.changeWalletPassphrase f cipher a.strOldWalletPassphrase a.strNewWalletPassphrase a.outcome = .ok (true, w') →
    ∃ u u', w.unlock f cipher a.strOldWalletPassphrase a.stakingOnly = .ok (true, u) ∧
      w'.unlock f cipher a.strNewWalletPassphrase a.stakingOnly = .ok (true, u') ∧ u'.vMasterKey = u.vMasterKey

structure Harmless (w : StakingWallet) (a : Attempt) : Prop where
  /-- An unlocked wallet is not tried in vain with a master key under which its keys decrypt, but not its chain. -/
  unlock : w.vMasterKey = [] ∨
    (∃ t, (w.mapMasterKeys.map (w.trial f cipher a.strWalletPassphrase)).find? WalletKeys.Trial.endsUnlock = some t ∧ t ≠ .underived) ∨
    WalletKeys.Trial.mismatched (w.mapMasterKeys.map (w.trial f cipher a.strWalletPassphrase)) = false
  /-- An old passphrase that opens no master key is tried on a locked wallet. -/
  refused : (w.mapMasterKeys.map (w.trial f cipher a.strOldWalletPassphrase)).find? WalletKeys.Trial.endsChange ∈
    [none, some .underived, some .undecrypted] → w.vMasterKey = []
  /-- The new passphrase gives a key that encrypts, or the master key comes out as it was and is the one that was set. -/
  recrypted : ∀ passed kMasterKey rest vMasterKey,
    WalletKeys.Reaches f cipher w.toWalletKeys a.strOldWalletPassphrase w.mapMasterKeys passed kMasterKey rest vMasterKey →
      (WalletKeys.recryptMasterKey cipher a.strNewWalletPassphrase a.outcome vMasterKey kMasterKey).1 = true ∨
      w.vMasterKey = vMasterKey ∧
        (WalletKeys.recryptMasterKey cipher a.strNewWalletPassphrase a.outcome vMasterKey kMasterKey).2 = kMasterKey
  /-- No earlier master key is in the way of the new passphrase. -/
  earlier : ∀ passed kMasterKey rest vMasterKey,
    WalletKeys.Reaches f cipher w.toWalletKeys a.strOldWalletPassphrase w.mapMasterKeys passed kMasterKey rest vMasterKey →
      (WalletKeys.recryptMasterKey cipher a.strNewWalletPassphrase a.outcome vMasterKey kMasterKey).1 = true →
      ∀ t, (passed.map (WalletKeys.trial f cipher { w.toWalletKeys with fDecryptionThoroughlyChecked := true }
        a.strNewWalletPassphrase)).find? WalletKeys.Trial.endsUnlock = some t → t = .fits vMasterKey

variable {f cipher} {w : StakingWallet}

variable {w' : StakingWallet}

theorem unlock_true {strWalletPassphrase : valtype} {stakingOnly : Bool} (crypto : w.fUseCrypto = true) :
    w.unlock f cipher strWalletPassphrase stakingOnly = .ok (true, w') ↔
      ∃ vMasterKey, (w.mapMasterKeys.map (w.trial f cipher strWalletPassphrase)).find? WalletKeys.Trial.endsUnlock =
        some (.fits vMasterKey) ∧ w' = { toWalletKeys := w.unlockedWith vMasterKey, fWalletUnlockStaking := stakingOnly } := by
  unfold unlock
  rw [WalletKeys.unlock_trials crypto]
  constructor
  · intro unlocked
    obtain ⟨⟨answer, keys⟩, done, same⟩ := map_eq_ok.mp unlocked
    obtain ⟨rfl, rfl⟩ := Prod.mk.inj same
    obtain ⟨vMasterKey, last, rfl⟩ := WalletKeys.unlockEnd_true done
    exact ⟨vMasterKey, last, rfl⟩
  · rintro ⟨vMasterKey, last, rfl⟩
    rw [last]
    rfl

theorem unharmed_checked (crypto : w.fUseCrypto = true)
    (same : w' = w ∨ w' = { w with fDecryptionThoroughlyChecked := true }) : Unharmed f cipher w w' := by
  rcases same with rfl | rfl
  · exact ⟨rfl, rfl, rfl, fun _ _ unlocks => unlocks⟩
  · refine ⟨rfl, rfl, rfl, ?_⟩
    rintro strWalletPassphrase stakingOnly ⟨u, unlocks⟩
    obtain ⟨vMasterKey, last, _⟩ := (unlock_true crypto).mp unlocks
    have found := WalletKeys.find_fits last fun k notCorrupt => WalletKeys.trial_checked strWalletPassphrase k notCorrupt
    exact ⟨_, (unlock_true (by exact crypto)).mpr ⟨vMasterKey, found, rfl⟩⟩

theorem unlock_false (stakingOnly : Bool) (crypto : w.fUseCrypto = true) :
    w.unlock f cipher strWalletPassphrase stakingOnly = .ok (false, w') ↔
      (∀ t, (w.mapMasterKeys.map (w.trial f cipher strWalletPassphrase)).find? WalletKeys.Trial.endsUnlock = some t → t = .underived) ∧
        w' = if WalletKeys.Trial.mismatched (w.mapMasterKeys.map (w.trial f cipher strWalletPassphrase))
          then { w with vMasterKey := [] } else w := by
  unfold unlock
  rw [WalletKeys.unlock_trials crypto]
  generalize WalletKeys.Trial.mismatched _ = mismatched
  have refuses : (Except.map (fun result : Bool × WalletKeys =>
      (result.1, ({ toWalletKeys := result.2, fWalletUnlockStaking := if result.1 then stakingOnly else w.fWalletUnlockStaking } :
        StakingWallet))) (.ok (false, if mismatched then { w.toWalletKeys with vMasterKey := [] } else w.toWalletKeys)) :
      Except KeyThrow (Bool × StakingWallet)) = .ok (false, w') ↔ w' = if mismatched then { w with vMasterKey := [] } else w := by
    cases mismatched
    · exact ⟨fun h => (Prod.mk.inj (Except.ok.inj h)).2.symm, fun h => by rw [h]; rfl⟩
    · exact ⟨fun h => (Prod.mk.inj (Except.ok.inj h)).2.symm, fun h => by rw [h]; rfl⟩
  cases last : (w.mapMasterKeys.map (w.trial f cipher strWalletPassphrase)).find? WalletKeys.Trial.endsUnlock with
  | none => simpa [WalletKeys.unlockEnd] using refuses
  | some t =>
    have ends := List.find?_some last
    cases t with
    | underived => simpa [WalletKeys.unlockEnd] using refuses
    | corrupt => exact ⟨fun h => (nomatch h), fun h => nomatch h.1 _ rfl⟩
    | fits vMasterKey => exact ⟨fun h => (nomatch h), fun h => nomatch h.1 _ rfl⟩
    | _ => exact nomatch ends

section Change

variable (crypto : w.fUseCrypto = true) {strOld : valtype} (strNew : valtype) (outcome : ChangeOutcome)

include crypto

theorem change_refused (refused : (w.mapMasterKeys.map (w.trial f cipher strOld)).find? WalletKeys.Trial.endsChange ∈
    [none, some .underived, some .undecrypted]) :
    w.changeWalletPassphrase f cipher strOld strNew outcome = .ok (false, { w with vMasterKey := [] }) := by
  unfold changeWalletPassphrase
  rcases WalletKeys.changeWalletPassphrase_trials (f := f) crypto strOld strNew outcome with
    ⟨corrupt, _⟩ | ⟨_, done⟩ | ⟨passed, kMasterKey, rest, vMasterKey, reaches, _⟩
  · rw [corrupt] at refused
    simp at refused
  · rw [done]
    rfl
  · rw [reaches.find _ (fun _ ends => ends) rfl] at refused
    simp at refused

theorem change_reaches
    (reaches : WalletKeys.Reaches f cipher w.toWalletKeys strOld w.mapMasterKeys passed kMasterKey rest vMasterKey) :
    w.changeWalletPassphrase f cipher strOld strNew outcome =
      .ok ((WalletKeys.recryptMasterKey cipher strNew outcome vMasterKey kMasterKey).1,
        { w.rekeyed passed rest vMasterKey (WalletKeys.recryptMasterKey cipher strNew outcome vMasterKey kMasterKey) with
          fWalletUnlockStaking := w.fWalletUnlockStaking }) := by
  have found := reaches.find WalletKeys.Trial.endsChange (fun _ ends => ends) rfl
  unfold changeWalletPassphrase
  rcases WalletKeys.changeWalletPassphrase_trials (f := f) crypto strOld strNew outcome with
    ⟨corrupt, _⟩ | ⟨refused, _⟩ | ⟨passed', kMasterKey', rest', vMasterKey', reaches', done⟩
  · rw [found] at corrupt
    exact nomatch corrupt
  · rw [found] at refused
    simp at refused
  · obtain ⟨rfl, rfl, rfl, rfl⟩ := reaches.unique reaches'
    rw [done]
    rfl

variable {strNew outcome} in
theorem change_ok (ended : w.changeWalletPassphrase f cipher strOld strNew outcome = .ok (b, w')) :
    (w.mapMasterKeys.map (w.trial f cipher strOld)).find? WalletKeys.Trial.endsChange ∈ [none, some .underived, some .undecrypted] ∨
      ∃ passed kMasterKey rest vMasterKey,
        WalletKeys.Reaches f cipher w.toWalletKeys strOld w.mapMasterKeys passed kMasterKey rest vMasterKey := by
  unfold changeWalletPassphrase at ended
  rcases WalletKeys.changeWalletPassphrase_trials (f := f) crypto strOld strNew outcome with
    ⟨_, failed⟩ | ⟨refused, _⟩ | ⟨passed, kMasterKey, rest, vMasterKey, reaches, _⟩
  · rw [failed] at ended
    exact nomatch ended
  · exact Or.inl refused
  · exact Or.inr ⟨passed, kMasterKey, rest, vMasterKey, reaches⟩

end Change

theorem FailsCleanly.harmless (crypto : w.fUseCrypto = true) (clean : FailsCleanly f cipher w a) : Harmless f cipher w a := by
  refine ⟨?_, ?_, ?_, ?_⟩
  · by_contra harms
    push Not at harms
    obtain ⟨unlocked, refuses, mismatched⟩ := harms
    have failed := (unlock_false a.stakingOnly crypto).mpr ⟨refuses, rfl⟩
    rw [if_pos (by simpa using mismatched)] at failed
    exact unlocked (clean.unlock _ failed).vMasterKey.symm
  · intro refused
    exact (clean.change _ (change_refused crypto _ _ refused)).vMasterKey.symm
  · intro passed kMasterKey rest vMasterKey reaches
    have ended := change_reaches crypto a.strNewWalletPassphrase a.outcome reaches
    generalize WalletKeys.recryptMasterKey cipher a.strNewWalletPassphrase a.outcome vMasterKey kMasterKey = changed at *
    obtain ⟨good, kMasterKey'⟩ := changed
    cases good with
    | true => exact Or.inl rfl
    | false =>
      have unharmed := clean.change _ ended
      have masterKeys := unharmed.masterKeys
      rw [reaches.split] at masterKeys
      exact Or.inr ⟨unharmed.vMasterKey.symm, (List.cons.inj (List.append_cancel_left masterKeys)).1⟩
  · intro passed kMasterKey rest vMasterKey reaches good t found
    have ended := change_reaches crypto a.strNewWalletPassphrase a.outcome reaches
    rw [good] at ended
    obtain ⟨u, u', opened, reopened, same⟩ := clean.changed _ ended
    obtain ⟨old, lastOld, rfl⟩ := (unlock_true crypto).mp opened
    obtain ⟨new, lastNew, rfl⟩ := (unlock_true (by exact crypto)).mp reopened
    have isOld := reaches.find WalletKeys.Trial.endsUnlock WalletKeys.Trial.endsChange_of_endsUnlock rfl
    obtain rfl : vMasterKey = old := WalletKeys.Trial.fits.inj (Option.some.inj (isOld.symm.trans lastOld))
    obtain rfl : new = vMasterKey := same
    have first : ((passed ++ _ :: rest).map (WalletKeys.trial f cipher { w.toWalletKeys with fDecryptionThoroughlyChecked := true }
        a.strNewWalletPassphrase)).find? WalletKeys.Trial.endsUnlock = some (.fits new) := lastNew
    rw [List.map_append, List.find?_append, found] at first
    exact Option.some.inj first

theorem Harmless.failsCleanly (crypto : w.fUseCrypto = true)
    (inverts : ∀ key iv plain crypted, cipher.encrypt key iv plain = some crypted → cipher.decrypt key iv crypted = some plain)
    (harmless : Harmless f cipher w a) : FailsCleanly f cipher w a := by
  refine ⟨?_, ?_, ?_⟩
  · intro w' failed
    obtain ⟨refuses, same⟩ := (unlock_false a.stakingOnly crypto).mp failed
    apply unharmed_checked crypto (Or.inl _)
    rw [same]
    split
    · next mismatched =>
      rcases harmless.unlock with locked | ⟨t, last, other⟩ | matched
      · rw [← locked]
      · exact absurd (refuses t last) other
      · rw [mismatched] at matched
        exact nomatch matched
    · rfl
  · intro w' failed
    rcases change_ok crypto failed with refused | ⟨passed, kMasterKey, rest, vMasterKey, reaches⟩
    · rw [change_refused crypto _ _ refused] at failed
      cases failed
      apply unharmed_checked crypto (Or.inl _)
      rw [← harmless.refused refused]
    · rw [change_reaches crypto _ _ reaches] at failed
      have either := harmless.recrypted _ _ _ _ reaches
      generalize WalletKeys.recryptMasterKey cipher a.strNewWalletPassphrase a.outcome vMasterKey kMasterKey = changed at *
      obtain ⟨good, kMasterKey'⟩ := changed
      cases failed
      rcases either with good | ⟨isKey, rfl⟩
      · exact nomatch good
      · apply unharmed_checked crypto (Or.inr _)
        unfold WalletKeys.rekeyed
        rw [← reaches.split, ← isKey]
        rfl
  · intro w' changes
    rcases change_ok crypto changes with refused | ⟨passed, kMasterKey, rest, vMasterKey, reaches⟩
    · rw [change_refused crypto _ _ refused] at changes
      exact nomatch changes
    · rw [change_reaches crypto _ _ reaches] at changes
      have good := (Prod.mk.inj (Except.ok.inj changes)).1
      have isOld := reaches.find WalletKeys.Trial.endsUnlock WalletKeys.Trial.endsChange_of_endsUnlock rfl
      have fits := WalletKeys.trial_fits reaches.fits
      have reopens : WalletKeys.trial f cipher { w.toWalletKeys with fDecryptionThoroughlyChecked := true } a.strNewWalletPassphrase
          (WalletKeys.recryptMasterKey cipher a.strNewWalletPassphrase a.outcome vMasterKey kMasterKey).2 = .fits vMasterKey := by
        rw [WalletKeys.trial_recrypted inverts good, WalletKeys.judge_checked vMasterKey (by rw [fits]; exact fun h => nomatch h), fits]
      have isNew : ((passed ++ (WalletKeys.recryptMasterKey cipher a.strNewWalletPassphrase a.outcome vMasterKey kMasterKey).2 :: rest).map
          (WalletKeys.trial f cipher { w.toWalletKeys with fDecryptionThoroughlyChecked := true } a.strNewWalletPassphrase)).find?
            WalletKeys.Trial.endsUnlock = some (.fits vMasterKey) := by
        rw [List.map_append, List.find?_append, List.map_cons, reopens]
        cases first : (passed.map (WalletKeys.trial f cipher { w.toWalletKeys with fDecryptionThoroughlyChecked := true }
            a.strNewWalletPassphrase)).find? WalletKeys.Trial.endsUnlock with
        | none => rfl
        | some t =>
          rw [harmless.earlier _ _ _ _ reaches good t first]
          rfl
      obtain rfl := (Prod.mk.inj (Except.ok.inj changes)).2
      exact ⟨_, _, (unlock_true crypto).mpr ⟨vMasterKey, isOld, rfl⟩, (unlock_true (by exact crypto)).mpr ⟨vMasterKey, isNew, rfl⟩, rfl⟩

/-- Exactly when the calls fail without harm, and the new passphrase opens what the old one did. -/
theorem passphrase_calls_exact (f : KeyFunctions) (cipher : Cipher)
    (inverts : ∀ key iv plain crypted, cipher.encrypt key iv plain = some crypted → cipher.decrypt key iv crypted = some plain)
    (w : StakingWallet) (crypto : w.fUseCrypto = true) (a : Attempt) : FailsCleanly f cipher w a ↔ Harmless f cipher w a :=
  ⟨fun clean => clean.harmless crypto, fun harmless => harmless.failsCleanly crypto inverts⟩

def keyedCipher : Cipher where
  encrypt := fun key _ plain => some (key ++ plain)
  decrypt := fun key _ crypted => if crypted.take key.length = key then some (crypted.drop key.length) else none
  bytesToKey := fun strKeyData _ _ => some ((strKeyData ++ List.replicate 32 0).take 32, List.replicate 16 0)

theorem keyedCipher_inverts (key iv plain crypted : valtype) (encrypted : keyedCipher.encrypt key iv plain = some crypted) :
    keyedCipher.decrypt key iv crypted = some plain := by
  obtain rfl := Option.some.inj encrypted
  simp [keyedCipher]

def lockedWallet : StakingWallet where
  fUseCrypto := true
  mapCryptedKeys := AList.insert (WalletKeys.plainKeys.getID (WalletKeys.plainKeys.getPubKey WalletKeys.importedKey))
    (WalletKeys.plainKeys.getPubKey WalletKeys.importedKey, List.replicate 32 3 ++ List.replicate 32 5) ∅
  mapMasterKeys := [{ vchCryptedKey := 8 :: List.replicate 31 0 ++ List.replicate 32 3, vchSalt := List.replicate 8 4 }]

def openWallet : StakingWallet := { lockedWallet with vMasterKey := List.replicate 32 3, fWalletUnlockStaking := true }

def wrongAttempt : Attempt := ⟨[9], true, [9], [7], ⟨30000, []⟩⟩

theorem wrong_passphrase_harms_no_locked_wallet : FailsCleanly WalletKeys.plainKeys keyedCipher lockedWallet wrongAttempt := by
  apply (passphrase_calls_exact WalletKeys.plainKeys keyedCipher keyedCipher_inverts lockedWallet rfl wrongAttempt).mpr
  have refused : (lockedWallet.mapMasterKeys.map (lockedWallet.trial WalletKeys.plainKeys keyedCipher [9])).find?
      WalletKeys.Trial.endsChange = some .undecrypted := rfl
  have unreached : ∀ passed kMasterKey rest vMasterKey, ¬ WalletKeys.Reaches WalletKeys.plainKeys keyedCipher lockedWallet.toWalletKeys
      [9] lockedWallet.mapMasterKeys passed kMasterKey rest vMasterKey := by
    intro passed kMasterKey rest vMasterKey reaches
    rw [reaches.find _ (fun _ ends => ends) rfl] at refused
    exact nomatch refused
  exact ⟨Or.inl rfl, fun _ => rfl, fun _ _ _ _ reaches => absurd reaches (unreached _ _ _ _),
    fun _ _ _ _ reaches => absurd reaches (unreached _ _ _ _)⟩

/-- A wrong old passphrase locks an unlocked wallet. -/
theorem wrong_passphrase_locks : ¬ ∀ (f : KeyFunctions) (cipher : Cipher),
    (∀ key iv plain crypted, cipher.encrypt key iv plain = some crypted → cipher.decrypt key iv crypted = some plain) →
      ∀ w : StakingWallet, w.fUseCrypto = true → ∀ a : Attempt, FailsCleanly f cipher w a := by
  intro clean
  have refused : (openWallet.mapMasterKeys.map (openWallet.trial WalletKeys.plainKeys keyedCipher [9])).find?
      WalletKeys.Trial.endsChange = some .undecrypted := rfl
  have ended : openWallet.changeWalletPassphrase WalletKeys.plainKeys keyedCipher [9] [7] ⟨30000, []⟩ =
      .ok (false, { openWallet with vMasterKey := [] }) := change_refused rfl _ _ (by rw [refused]; simp)
  have unharmed := (clean WalletKeys.plainKeys keyedCipher keyedCipher_inverts openWallet rfl wrongAttempt).change _ ended
  exact nomatch unharmed.vMasterKey

end StakingWallet

end SchillingCoin
