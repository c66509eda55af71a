import SchillingCoin.Wallet.Crypter
import Mathlib.Tactic.SplitIfs
import Mathlib.Data.List.Induction

/-!
Keys that a wallet derives from its chain: `GenerateNewKey` on an unlocked wallet with a chain, and `GetKey`, which derives
a key again from what `AddHDPubKey` recorded of its path.
-/

namespace SchillingCoin

namespace WalletKeys

variable {f : KeyFunctions} {cipher : Cipher} {w w' : WalletKeys}

/-- The mnemonic and passphrase of a chain that `cryptMnemonic` makes of another one. -/
def Crypts (crypt : valtype → Option valtype) (source target : CHDChain) : Prop :=
  if source.vchMnemonic = [] then
    target.vchMnemonic = [] ∧ target.vchMnemonicPassphrase = source.vchMnemonicPassphrase
  else Cipher.unlessEmpty crypt source.vchMnemonic = some target.vchMnemonic ∧
    Cipher.unlessEmpty crypt source.vchMnemonicPassphrase = some target.vchMnemonicPassphrase

variable {chain : CHDChain} {nAccountIndex : UInt32}

theorem isNull_false_iff : chain.isNull = false ↔ chain.vchSeed ≠ [] ∧ chain.id ≠ 0 := by
  simp [CHDChain.isNull]

theorem orNone_eq_some : chain.orNone = some chain' ↔ chain.isNull = false ∧ chain = chain' := by
  unfold CHDChain.orNone
  cases chain.isNull <;> simp

theorem cryptMnemonic_eq_some (present : target.isNull = false) (mnemonic : target.vchMnemonic = source.vchMnemonic)
    (passphrase : target.vchMnemonicPassphrase = source.vchMnemonicPassphrase) :
    cryptMnemonic crypt source target = some chain ↔ Crypts crypt source chain ∧
      chain = { target with vchMnemonic := chain.vchMnemonic, vchMnemonicPassphrase := chain.vchMnemonicPassphrase } := by
  unfold cryptMnemonic CHDChain.getMnemonic Crypts
  by_cases empty : source.vchMnemonic = []
  · rw [empty]
    simp only [List.isEmpty_nil, if_true, Option.some.injEq]
    constructor
    · rintro rfl
      exact ⟨⟨mnemonic.trans empty, passphrase⟩, rfl⟩
    · rintro ⟨⟨first, second⟩, same⟩
      rw [same, first, second, ← passphrase, ← empty, ← mnemonic]
  · have notEmpty : source.vchMnemonic.isEmpty = false := by simpa using empty
    rw [notEmpty]
    simp only [Bool.false_eq_true, if_false, if_neg empty, CHDChain.setMnemonic]
    have present' : ∀ m p, CHDChain.isNull { target with vchMnemonic := m, vchMnemonicPassphrase := p } = false := fun _ _ => present
    cases first : Cipher.unlessEmpty crypt source.vchMnemonic with
    | none => simp
    | some m =>
      cases second : Cipher.unlessEmpty crypt source.vchMnemonicPassphrase with
      | none => simp
      | some p =>
        simp only [orNone_eq_some, present', true_and, Option.some.injEq]
        constructor
        · rintro rfl
          exact ⟨⟨rfl, rfl⟩, rfl⟩
        · rintro ⟨⟨rfl, rfl⟩, same⟩
          exact same.symm

structure Opens (f : KeyFunctions) (cipher : Cipher) (vMasterKey : valtype) (crypted chain : CHDChain) : Prop where
  flagged : crypted.fCrypted = true
  present : crypted.isNull = false
  seed : cipher.decryptSecret vMasterKey crypted.vchSeed crypted.id = some chain.vchSeed
  seedPresent : chain.vchSeed ≠ []
  seedHash : f.seedHash chain.vchSeed = crypted.id
  mnemonic : Crypts (fun vch => cipher.decryptSecret vMasterKey vch crypted.id) crypted chain
  sameId : chain.id = crypted.id
  plain : chain.fCrypted = false
  accounts : chain.mapAccounts = crypted.mapAccounts

theorem decryptHDChain_eq_some (crypted : w.fUseCrypto = true) :
    w.decryptHDChain f cipher ret = some chain ↔ Opens f cipher w.vMasterKey w.cryptedHDChain chain := by
  unfold decryptHDChain
  simp only [crypted, Bool.not_true, Bool.false_eq_true, if_false]
  constructor
  · intro done
    split_ifs at done with absent unflagged
    have present : w.cryptedHDChain.isNull = false := by simpa using absent
    split at done
    · exact nomatch done
    · rename_i seed opened
      split at done
      · exact nomatch done
      · rename_i chain' seeded
        obtain ⟨present', rfl⟩ := orNone_eq_some.mp seeded
        split_ifs at done with wrong
        split at done
        · exact nomatch done
        · rename_i chain' mnemonic
          obtain ⟨crypts, same⟩ := (cryptMnemonic_eq_some present' rfl rfl).mp mnemonic
          obtain rfl := Option.some.inj done
          refine ⟨by simpa using unflagged, present, ?_, ?_, ?_, crypts, ?_, rfl, ?_⟩
          · rw [same]
            exact opened
          · rw [same]
            exact (isNull_false_iff.mp present').1
          · rw [same]
            simpa [CHDChain.getSeedHash] using wrong
          · rw [same]
          · rw [same]
  · intro opens
    have present' : CHDChain.isNull { w.cryptedHDChain with vchSeed := chain.vchSeed } = false :=
      isNull_false_iff.mpr ⟨opens.seedPresent, (isNull_false_iff.mp opens.present).2⟩
    have mnemonic : cryptMnemonic (fun vch => cipher.decryptSecret w.vMasterKey vch w.cryptedHDChain.id) w.cryptedHDChain
        { w.cryptedHDChain with vchSeed := chain.vchSeed } = some { chain with fCrypted := true } := by
      refine (cryptMnemonic_eq_some present' rfl rfl).mpr ⟨opens.mnemonic, ?_⟩
      rw [← opens.sameId, ← opens.accounts, opens.flagged]
    have hash : CHDChain.getSeedHash f { w.cryptedHDChain with vchSeed := chain.vchSeed } = w.cryptedHDChain.id := opens.seedHash
    have seeded : w.cryptedHDChain.setSeed chain.vchSeed = some { w.cryptedHDChain with vchSeed := chain.vchSeed } :=
      orNone_eq_some.mpr ⟨present', rfl⟩
    rw [if_neg (by simp [opens.present]), if_neg (by simp [opens.flagged]), opens.seed]
    simp only [seeded, hash, ne_eq, not_true_eq_false, if_false, mnemonic]
    rw [← opens.plain]

def withChain (w : WalletKeys) (chain : CHDChain) : WalletKeys :=
  if w.fUseCrypto then { w with cryptedHDChain := chain } else { w with hdChain := chain }

def storedChain (w : WalletKeys) : CHDChain := if w.fUseCrypto then w.cryptedHDChain else w.hdChain

section withChain

variable (chain : CHDChain)

@[simp] theorem withChain_fUseCrypto : (w.withChain chain).fUseCrypto = w.fUseCrypto := by
  unfold withChain
  split <;> rfl

@[simp] theorem withChain_storedChain : (w.withChain chain).storedChain = chain := by
  unfold withChain storedChain
  cases w.fUseCrypto <;> simp

@[simp] theorem withChain_vMasterKey : (w.withChain chain).vMasterKey = w.vMasterKey := by
  unfold withChain
  split <;> rfl

@[simp] theorem withChain_fFileBacked : (w.withChain chain).fFileBacked = w.fFileBacked := by
  unfold withChain
  split <;> rfl

@[simp] theorem withChain_mapHdPubKeys : (w.withChain chain).mapHdPubKeys = w.mapHdPubKeys := by
  unfold withChain
  split <;> rfl

@[simp] theorem withChain_mapKeys : (w.withChain chain).mapKeys = w.mapKeys := by
  unfold withChain
  split <;> rfl

@[simp] theorem withChain_mapCryptedKeys : (w.withChain chain).mapCryptedKeys = w.mapCryptedKeys := by
  unfold withChain
  split <;> rfl

@[simp] theorem withChain_mapMasterKeys : (w.withChain chain).mapMasterKeys = w.mapMasterKeys := by
  unfold withChain
  split <;> rfl

end withChain

theorem getHDChain_eq_some :
    w.getHDChain = some chain ↔ w.storedChain.isNull = false ∧ w.storedChain = chain :=
  orNone_eq_some

theorem decrypt_storedChain : w.decryptHDChain f cipher w.storedChain = some chain ↔
    if w.fUseCrypto then Opens f cipher w.vMasterKey w.storedChain chain else w.storedChain = chain := by
  cases crypted : w.fUseCrypto with
  | true =>
    rw [decryptHDChain_eq_some crypted]
    simp [storedChain, crypted]
  | false => simp [decryptHDChain, crypted]

/-- What the wallet's chain is when it can be read: it is written back with its own flag, and a locked wallet has none. -/
structure Unlocked (f : KeyFunctions) (cipher : Cipher) (w : WalletKeys) (chain : CHDChain) : Prop where
  present : w.storedChain.isNull = false
  opens : w.decryptHDChain f cipher w.storedChain = some chain
  right : chain.id = chain.getSeedHash f
  flagged : w.storedChain.fCrypted = w.fUseCrypto
  backed : w.fFileBacked = true

theorem Unlocked.withAccounts (unlocked : w.Unlocked f cipher chain) (accounts : StdMap UInt32 CHDAccount) :
    (w.withChain { w.storedChain with mapAccounts := accounts }).Unlocked f cipher { chain with mapAccounts := accounts } := by
  have opens := decrypt_storedChain.mp unlocked.opens
  refine ⟨?_, decrypt_storedChain.mpr ?_, unlocked.right, ?_, ?_⟩
  · rw [withChain_storedChain]
    exact unlocked.present
  · rw [withChain_storedChain, withChain_fUseCrypto, withChain_vMasterKey]
    split at opens
    · rename_i crypted
      rw [if_pos crypted]
      exact ⟨opens.flagged, opens.present, opens.seed, opens.seedPresent, opens.seedHash, opens.mnemonic, opens.sameId, opens.plain, rfl⟩
    · rename_i plain
      rw [if_neg plain, opens]
  · rw [withChain_storedChain, withChain_fUseCrypto]
    exact unlocked.flagged
  · rw [withChain_fFileBacked]
    exact unlocked.backed

theorem Unlocked.accounts (unlocked : w.Unlocked f cipher chain) :
    w.storedChain.mapAccounts = chain.mapAccounts := by
  have opens := decrypt_storedChain.mp unlocked.opens
  split at opens
  · exact opens.accounts.symm
  · rw [opens]

theorem Unlocked.congr (unlocked : w.Unlocked f cipher chain) (crypto : w'.fUseCrypto = w.fUseCrypto)
    (masterKey : w'.vMasterKey = w.vMasterKey) (stored : w'.storedChain = w.storedChain)
    (backed : w'.fFileBacked = w.fFileBacked) : w'.Unlocked f cipher chain := by
  refine ⟨by rw [stored]; exact unlocked.present, decrypt_storedChain.mpr ?_, unlocked.right,
    by rw [stored, crypto]; exact unlocked.flagged, by rw [backed]; exact unlocked.backed⟩
  rw [stored, crypto, masterKey]
  exact decrypt_storedChain.mp unlocked.opens

def counter (acc : CHDAccount) (fInternal : Bool) : UInt32 := if fInternal then acc.nInternalChainCounter else acc.nExternalChainCounter

def advance (acc : CHDAccount) (fInternal : Bool) (nChildIndex : UInt32) : CHDAccount :=
  if fInternal then { acc with nInternalChainCounter := nChildIndex } else { acc with nExternalChainCounter := nChildIndex }

def withChild (f : KeyFunctions) (w : WalletKeys) (nAccountIndex : UInt32) (fInternal : Bool) (acc : CHDAccount) (childKey : CExtKey)
    (nChildIndex : UInt32) : WalletKeys :=
  (w.withChain { w.storedChain with
    mapAccounts := w.storedChain.mapAccounts.insert nAccountIndex (advance acc fInternal nChildIndex) }).addHDPubKey f
      (f.neuter childKey) fInternal

theorem Unlocked.deriveNewChildKey (unlocked : w.Unlocked f cipher chain) (fInternal : Bool)
    (account : chain.getAccount nAccountIndex = some acc) :
    w.deriveNewChildKey f cipher nAccountIndex fInternal =
      match w.findChild f (chain.deriveChildExtKey f nAccountIndex fInternal) (2 ^ 32) (counter acc fInternal) with
      | none => .error .endless
      | some (childKey, nChildIndex) =>
        .ok (childKey.key, w.withChild f nAccountIndex fInternal acc childKey nChildIndex) := by
  have stored : w.getHDChain = some w.storedChain := getHDChain_eq_some.mpr ⟨unlocked.present, rfl⟩
  have room : ¬nAccountIndex.toNat > w.storedChain.mapAccounts.keys.length - 1 := by
    intro beyond
    rw [unlocked.accounts] at beyond
    rw [CHDChain.getAccount, if_pos beyond] at account
    exact nomatch account
  have written : ∀ hdAccount, w.storedChain.setAccount nAccountIndex hdAccount =
      some { w.storedChain with mapAccounts := w.storedChain.mapAccounts.insert nAccountIndex hdAccount } := by
    intro hdAccount
    rw [CHDChain.setAccount, if_neg room]
  have kept : ∀ accounts, (if w.fUseCrypto then w.setCryptedHDChain { w.storedChain with mapAccounts := accounts }
      else w.setHDChain { w.storedChain with mapAccounts := accounts }) =
      some (w.withChain { w.storedChain with mapAccounts := accounts }) := by
    intro accounts
    have flagged := unlocked.flagged
    cases crypted : w.fUseCrypto with
    | true =>
      rw [crypted] at flagged
      simp [setCryptedHDChain, setCrypted, withChain, crypted, flagged, unlocked.backed]
    | false =>
      rw [crypted] at flagged
      simp [setHDChain, withChain, crypted, flagged]
  unfold WalletKeys.deriveNewChildKey
  simp only [stored, unlocked.opens, unlocked.right, ne_eq, not_true_eq_false, if_false, account]
  show (match w.findChild f _ (2 ^ 32) (counter acc fInternal) with
    | none => _
    | some (childKey, nChildIndex) => _) = _
  cases w.findChild f (chain.deriveChildExtKey f nAccountIndex fInternal) (2 ^ 32) (counter acc fInternal) with
  | none => rfl
  | some found =>
    obtain ⟨childKey, nChildIndex⟩ := found
    simp only [written, kept]
    rfl

theorem findChild_of_room (below : last < 2 ^ 32 - 1)
    (unknown : w.haveKey (f.getID (f.getPubKey (child (UInt32.ofNat last)).key)) = false) (rounds : Nat) (nChildIndex : UInt32)
    (before : nChildIndex.toNat ≤ last) (enough : last - nChildIndex.toNat < rounds) :
    ∃ m : UInt32, w.findChild f child rounds nChildIndex = some (child m, m + 1) ∧
      w.haveKey (f.getID (f.getPubKey (child m).key)) = false ∧ nChildIndex.toNat ≤ m.toNat ∧ m.toNat < 2 ^ 32 - 1 := by
  induction rounds generalizing nChildIndex with
  | zero => omega
  | succ rounds ih =>
    unfold findChild
    by_cases known : w.haveKey (f.getID (f.getPubKey (child nChildIndex).key)) = true
    · rw [if_pos known]
      have notLast : nChildIndex.toNat ≠ last := by
        rintro rfl
        rw [UInt32.ofNat_toNat, known] at unknown
        exact nomatch unknown
      have next : (nChildIndex + 1).toNat = nChildIndex.toNat + 1 := by
        rw [UInt32.toNat_add]
        have one : (1 : UInt32).toNat = 1 := rfl
        omega
      obtain ⟨m, found, isNew, low, high⟩ := ih (nChildIndex + 1) (by omega) (by omega)
      exact ⟨m, found, isNew, by omega, high⟩
    · rw [if_neg known]
      exact ⟨nChildIndex, rfl, by simpa using known, by omega, by omega⟩

theorem findChild_new (found : w.findChild f child rounds nChildIndex = some (key, next)) :
    ∃ m, key = child m ∧ next = m + 1 ∧ w.haveKey (f.getID (f.getPubKey (child m).key)) = false := by
  induction rounds generalizing nChildIndex with
  | zero => exact nomatch found
  | succ rounds ih =>
    unfold findChild at found
    split at found
    · exact ih found
    · rename_i unknown
      obtain ⟨rfl, rfl⟩ := Prod.mk.inj (Option.some.inj found)
      exact ⟨nChildIndex, rfl, rfl, by simpa using unknown⟩

def Derivable (f : KeyFunctions) (cipher : Cipher) (w : WalletKeys) : Prop :=
  ∀ id, (w.mapHdPubKeys.lookup id).isSome → ∃ key, w.getKey f cipher id = .ok (some key) ∧ f.getID (f.getPubKey key) = id ∧
    w.getPubKey f id = some (f.getPubKey key)

def rederived (f : KeyFunctions) (chain : CHDChain) (hdPubKey : CHDPubKey) : CKey :=
  (chain.deriveChildExtKey f hdPubKey.nAccountIndex (hdPubKey.nChangeIndex ≠ 0) hdPubKey.extPubKey.nChild).key

theorem Unlocked.getKey (unlocked : w.Unlocked f cipher chain) {id : CKeyID} (found : w.mapHdPubKeys.lookup id = some hdPubKey) :
    w.getKey f cipher id = .ok (some (rederived f chain hdPubKey)) := by
  have stored : w.getHDChain = some w.storedChain := getHDChain_eq_some.mpr ⟨unlocked.present, rfl⟩
  simp only [WalletKeys.getKey, found, stored, unlocked.opens, unlocked.right, ne_eq, not_true_eq_false, if_false]
  rfl

theorem Unlocked.derivable_iff (unlocked : w.Unlocked f cipher chain) : w.Derivable f cipher ↔
    ∀ id hdPubKey, w.mapHdPubKeys.lookup id = some hdPubKey → f.getID (f.getPubKey (rederived f chain hdPubKey)) = id ∧
      hdPubKey.extPubKey.pubkey = f.getPubKey (rederived f chain hdPubKey) := by
  constructor
  · intro derivable id hdPubKey found
    obtain ⟨key, got, sameId, samePubKey⟩ := derivable id (by simp [found])
    rw [unlocked.getKey found] at got
    obtain rfl := Option.some.inj (Except.ok.inj got)
    simp only [getPubKey, found] at samePubKey
    exact ⟨sameId, Option.some.inj samePubKey⟩
  · intro all id present
    obtain ⟨hdPubKey, found⟩ := Option.isSome_iff_exists.mp present
    obtain ⟨sameId, samePubKey⟩ := all id hdPubKey found
    exact ⟨_, unlocked.getKey found, sameId, by simp only [getPubKey, found, samePubKey]⟩

theorem deriveChildExtKey_congr (same : a ||| HARDENED = b ||| HARDENED) (fInternal : Bool) (nChildIndex : UInt32) :
    chain.deriveChildExtKey f a fInternal nChildIndex = chain.deriveChildExtKey f b fInternal nChildIndex := by
  simp only [CHDChain.deriveChildExtKey, same]

def ChildrenApart (f : KeyFunctions) (chain : CHDChain) : Prop :=
  ∀ a b fInternal fInternal' m n, f.getID (f.getPubKey (chain.deriveChildExtKey f a fInternal m).key) =
    f.getID (f.getPubKey (chain.deriveChildExtKey f b fInternal' n).key) →
    a ||| HARDENED = b ||| HARDENED ∧ fInternal = fInternal' ∧ m = n

def Keyed (f : KeyFunctions) (w : WalletKeys) : Prop :=
  (∀ id key, w.mapKeys.lookup id = some key → f.getID (f.getPubKey key) = id) ∧
    ∀ id entry, w.mapCryptedKeys.lookup id = some entry → f.getID entry.1 = id

theorem Keyed.getID_of_getPubKey (keyed : w.Keyed f) (unlocked : w.Unlocked f cipher chain) (derivable : w.Derivable f cipher)
    {id : CKeyID} (got : w.getPubKey f id = some pubkey) : f.getID pubkey = id ∧ w.haveKey id = true := by
  unfold getPubKey at got
  split at got
  · rename_i hdPubKey found
    obtain ⟨sameId, samePubKey⟩ := unlocked.derivable_iff.mp derivable id hdPubKey found
    rw [← Option.some.inj got, samePubKey]
    exact ⟨sameId, by simp [haveKey, found]⟩
  · unfold getStoredPubKey at got
    cases crypted : w.fUseCrypto with
    | true =>
      rw [crypted] at got
      obtain ⟨entry, found, rfl⟩ := Option.map_eq_some_iff.mp (show (w.mapCryptedKeys.lookup id).map Prod.fst = some pubkey from got)
      exact ⟨keyed.2 id entry found, by simp [haveKey, crypted, found]⟩
    | false =>
      rw [crypted] at got
      obtain ⟨key, found, rfl⟩ := Option.map_eq_some_iff.mp (show (w.mapKeys.lookup id).map f.getPubKey = some pubkey from got)
      exact ⟨keyed.1 id key found, by simp [haveKey, crypted, found]⟩

/-- What `AddHDPubKey` records of a child. -/
def recorded (f : KeyFunctions) (id : uint256) (childKey : CExtKey) (fInternal : Bool) : CHDPubKey :=
  { extPubKey := f.neuter childKey, hdchainID := id, nChangeIndex := if fInternal then 1 else 0 }

section withChild

variable {chain : CHDChain} {nAccountIndex : UInt32} {fInternal : Bool} {acc : CHDAccount} {childKey : CExtKey} {next : UInt32}

theorem Unlocked.withChild (unlocked : w.Unlocked f cipher chain) :
    (w.withChild f nAccountIndex fInternal acc childKey next).Unlocked f cipher
      { chain with mapAccounts := chain.mapAccounts.insert nAccountIndex (advance acc fInternal next) } := by
  rw [← unlocked.accounts]
  exact (unlocked.withAccounts _).congr rfl rfl rfl rfl

theorem lookup_withChild (f : KeyFunctions) (w : WalletKeys) (nAccountIndex : UInt32) (fInternal : Bool) (acc : CHDAccount)
    (childKey : CExtKey) (next : UInt32) (id : CKeyID) : ∃ chainID, (w.withChild f nAccountIndex fInternal acc childKey next).mapHdPubKeys.lookup id =
    if id = f.getID (f.getPubKey childKey.key) then some (recorded f chainID childKey fInternal) else w.mapHdPubKeys.lookup id := by
  simp only [WalletKeys.withChild, addHDPubKey, withChain_mapHdPubKeys]
  exact ⟨_, StdMap.lookup_insert_ite _ _ _ _⟩

theorem Keyed.withChild (keyed : w.Keyed f) : (w.withChild f nAccountIndex fInternal acc childKey next).Keyed f := by
  simpa [Keyed, WalletKeys.withChild, addHDPubKey] using keyed

theorem Unlocked.derivable_withChild (unlocked : w.Unlocked f cipher chain) (derivable : w.Derivable f cipher)
    (isChild : childKey = chain.deriveChildExtKey f nAccountIndex fInternal m) :
    (nAccountIndex ||| HARDENED = HARDENED → (w.withChild f nAccountIndex fInternal acc childKey next).Derivable f cipher) ∧
      (ChildrenApart f chain → nAccountIndex ||| HARDENED ≠ HARDENED →
        ¬(w.withChild f nAccountIndex fInternal acc childKey next).Derivable f cipher) := by
  rw [unlocked.withChild.derivable_iff]
  have again : ∀ chainID, rederived f { chain with mapAccounts := chain.mapAccounts.insert nAccountIndex (advance acc fInternal next) }
      (recorded f chainID childKey fInternal) = (chain.deriveChildExtKey f 0 fInternal m).key := by
    intro chainID
    subst isChild
    cases fInternal <;> rfl
  constructor
  · intro same id hdPubKey found
    obtain ⟨chainID, looked⟩ := lookup_withChild f w nAccountIndex fInternal acc childKey next id
    rw [looked] at found
    split at found
    · rename_i isNew
      obtain rfl := Option.some.inj found
      have samePath : childKey = chain.deriveChildExtKey f 0 fInternal m := by
        rw [isChild]
        exact deriveChildExtKey_congr same fInternal m
      rw [again, ← samePath, isNew]
      exact ⟨rfl, rfl⟩
    · exact unlocked.derivable_iff.mp derivable id hdPubKey found
  · intro apart other all
    obtain ⟨chainID, looked⟩ := lookup_withChild f w nAccountIndex fInternal acc childKey next (f.getID (f.getPubKey childKey.key))
    rw [if_pos rfl] at looked
    obtain ⟨sameId, _⟩ := all _ _ looked
    rw [again, isChild] at sameId
    exact other (apart _ _ _ _ _ _ sameId).1.symm

end withChild

inductive HDOp where
  | generateNewKey (nAccountIndex : UInt32) (fInternal : Bool)
  | importKey (key : CKey)

def step (f : KeyFunctions) (cipher : Cipher) (w : WalletKeys) : HDOp → Except KeyThrow (Option CPubKey × WalletKeys)
  | .generateNewKey nAccountIndex fInternal => (w.generateNewKey f cipher nAccountIndex fInternal {}).map fun r => (some r.1, r.2)
  | .importKey key => .ok (none, (w.addKeyPubKey f cipher key (f.getPubKey key)).getD w)

def run (f : KeyFunctions) (cipher : Cipher) (w : WalletKeys) (ops : List HDOp) : Except KeyThrow WalletKeys :=
  ops.foldlM (fun w op => (w.step f cipher op).map Prod.snd) w

structure HDWallet (f : KeyFunctions) (cipher : Cipher) (chain : CHDChain) (w : WalletKeys) : Prop where
  unlocked : w.Unlocked f cipher chain
  derivable : w.Derivable f cipher
  keyed : w.Keyed f

def Advances (w w' : WalletKeys) : Prop :=
  ∀ nAccountIndex fInternal, (counter ((w.storedChain.mapAccounts.lookup nAccountIndex).getD {}) fInternal).toNat ≤
    (counter ((w'.storedChain.mapAccounts.lookup nAccountIndex).getD {}) fInternal).toNat

def Meets (f : KeyFunctions) (cipher : Cipher) (w : WalletKeys) : HDOp → Prop
  | .importKey _ => True
  | .generateNewKey nAccountIndex fInternal => ∀ chain, w.getDecryptedHDChain f cipher = some chain →
      ∃ acc, chain.getAccount nAccountIndex = some acc ∧ nAccountIndex ||| HARDENED = HARDENED ∧
        ∃ last, (counter acc fInternal).toNat ≤ last ∧ last < 2 ^ 32 - 1 ∧
          w.haveKey (f.getID (f.getPubKey (chain.deriveChildExtKey f nAccountIndex fInternal (UInt32.ofNat last)).key)) = false

theorem Unlocked.getDecryptedHDChain (unlocked : w.Unlocked f cipher chain) :
    w.getDecryptedHDChain f cipher = some chain := by
  have stored : w.getHDChain = some w.storedChain := getHDChain_eq_some.mpr ⟨unlocked.present, rfl⟩
  simp [WalletKeys.getDecryptedHDChain, stored, unlocked.opens, unlocked.right]

section

variable (wallet : w.HDWallet f cipher chain)

include wallet

theorem HDWallet.generateNewKey (fInternal : Bool) (account : chain.getAccount nAccountIndex = some acc) :
    w.step f cipher (.generateNewKey nAccountIndex fInternal) =
      match w.findChild f (chain.deriveChildExtKey f nAccountIndex fInternal) (2 ^ 32) (counter acc fInternal) with
      | none => .error .endless
      | some (childKey, nChildIndex) =>
        .ok (some (f.getPubKey childKey.key), w.withChild f nAccountIndex fInternal acc childKey nChildIndex) := by
  have enabled : w.isHDEnabled = true := by
    rw [isHDEnabled, getHDChain_eq_some.mpr ⟨wallet.unlocked.present, rfl⟩]
    rfl
  simp only [step, WalletKeys.generateNewKey, enabled, if_true, wallet.unlocked.deriveNewChildKey fInternal account]
  cases w.findChild f (chain.deriveChildExtKey f nAccountIndex fInternal) (2 ^ 32) (counter acc fInternal) <;> rfl

theorem HDWallet.generateNewKey_none (fInternal : Bool) (account : chain.getAccount nAccountIndex = none) :
    w.step f cipher (.generateNewKey nAccountIndex fInternal) = .error .runtimeError := by
  have stored : w.getHDChain = some w.storedChain := getHDChain_eq_some.mpr ⟨wallet.unlocked.present, rfl⟩
  have right := wallet.unlocked.right
  simp only [step, WalletKeys.generateNewKey, isHDEnabled, stored, Option.isSome_some, if_true, WalletKeys.deriveNewChildKey,
    wallet.unlocked.opens, right, ne_eq, not_true_eq_false, if_false, account]
  rfl

theorem HDWallet.not_locked (crypted : w.fUseCrypto = true) : w.isLocked = false := by
  have opens := decrypt_storedChain.mp wallet.unlocked.opens
  rw [if_pos crypted] at opens
  have seed := opens.seed
  unfold Cipher.decryptSecret at seed
  split at seed
  · exact nomatch seed
  · rename_i size
    cases empty : w.vMasterKey with
    | nil =>
      rw [empty] at size
      exact absurd (by decide) size
    | cons _ _ => simp [isLocked, empty]

theorem HDWallet.importKey (key : CKey) :
    ((w.addKeyPubKey f cipher key (f.getPubKey key)).getD w).HDWallet f cipher chain ∧
      Advances w ((w.addKeyPubKey f cipher key (f.getPubKey key)).getD w) := by
  unfold addKeyPubKey
  by_cases crypted : w.fUseCrypto = true
  · rw [if_neg (by simp [crypted]), if_neg (by simp [wallet.not_locked crypted])]
    cases encrypted : cipher.encryptSecret w.vMasterKey key.bytes (f.getHash (f.getPubKey key)) with
    | none => exact ⟨wallet, fun _ _ => Nat.le_refl _⟩
    | some secret =>
      have added : w.addCryptedKey f (f.getPubKey key) secret = some { w with
          mapCryptedKeys := w.mapCryptedKeys.insert (f.getID (f.getPubKey key)) (f.getPubKey key, secret) } := by
        rw [addCryptedKey, setCrypted, if_pos crypted]
        rfl
      have unlocked : Unlocked f cipher { w with
          mapCryptedKeys := w.mapCryptedKeys.insert (f.getID (f.getPubKey key)) (f.getPubKey key, secret) } chain :=
        wallet.unlocked.congr rfl rfl rfl rfl
      rw [Option.bind_eq_bind, Option.bind_some, added, Option.getD_some]
      refine ⟨⟨unlocked, ?_, wallet.keyed.1, ?_⟩, fun _ _ => Nat.le_refl _⟩
      · rw [unlocked.derivable_iff]
        exact wallet.unlocked.derivable_iff.mp wallet.derivable
      · intro id entry found
        rw [StdMap.lookup_insert_ite] at found
        split at found
        · rename_i here
          rw [here, ← Option.some.inj found]
        · exact wallet.keyed.2 id entry found
  · rw [if_pos (by simpa using crypted), Option.getD_some]
    have unlocked : Unlocked f cipher { w with mapKeys := w.mapKeys.insert (f.getID (f.getPubKey key)) key } chain :=
      wallet.unlocked.congr rfl rfl rfl rfl
    refine ⟨⟨unlocked, ?_, ?_, wallet.keyed.2⟩, fun _ _ => Nat.le_refl _⟩
    · rw [unlocked.derivable_iff]
      exact wallet.unlocked.derivable_iff.mp wallet.derivable
    · intro id key' found
      rw [StdMap.lookup_insert_ite] at found
      split at found
      · rename_i here
        rw [here, ← Option.some.inj found]
      · exact wallet.keyed.1 id key' found

end

theorem counter_advance (acc : CHDAccount) (fInternal side : Bool) (next : UInt32) :
    counter (advance acc fInternal next) side = if side = fInternal then next else counter acc side := by
  cases fInternal <;> cases side <;> rfl

theorem HDWallet.step_meets (wallet : w.HDWallet f cipher chain) (meets : w.Meets f cipher op) :
    ∃ ret w' chain', w.step f cipher op = .ok (ret, w') ∧ w'.HDWallet f cipher chain' ∧ chain'.vchSeed = chain.vchSeed ∧ Advances w w' ∧
      ∀ pubkey, ret = some pubkey → w.haveKey (f.getID pubkey) = false ∧ ∀ id pubkey', w.getPubKey f id = some pubkey' → pubkey' ≠ pubkey := by
  cases op with
  | importKey key =>
    obtain ⟨wallet', advances⟩ := wallet.importKey key
    exact ⟨none, _, chain, rfl, wallet', rfl, advances, fun pubkey absent => nomatch absent⟩
  | generateNewKey nAccountIndex fInternal =>
    obtain ⟨acc, account, path, last, low, high, unknown⟩ := meets chain wallet.unlocked.getDecryptedHDChain
    obtain ⟨m, found, isNew, ahead, below⟩ := findChild_of_room high unknown (2 ^ 32) (counter acc fInternal) low (by omega)
    have stepped := wallet.generateNewKey fInternal account
    rw [found] at stepped
    refine ⟨_, _, _, stepped, ⟨wallet.unlocked.withChild, ?_, wallet.keyed.withChild⟩, rfl, ?_, ?_⟩
    · exact (wallet.unlocked.derivable_withChild wallet.derivable rfl).1 path
    · intro b side
      rw [wallet.unlocked.withChild.accounts, wallet.unlocked.accounts, StdMap.lookup_insert_ite]
      split
      · rename_i here
        subst here
        rw [Option.getD_some, counter_advance]
        have current : (chain.mapAccounts.lookup b).getD {} = acc := by
          unfold CHDChain.getAccount at account
          split at account
          · exact nomatch account
          · exact Option.some.inj account
        rw [current]
        split
        · rename_i sameSide
          subst sameSide
          have next : (m + 1).toNat = m.toNat + 1 := by
            rw [UInt32.toNat_add]
            have one : (1 : UInt32).toNat = 1 := rfl
            omega
          omega
        · exact Nat.le_refl _
      · exact Nat.le_refl _
    · rintro pubkey isKey
      obtain rfl := Option.some.inj isKey
      refine ⟨isNew, fun id pubkey' got same => ?_⟩
      obtain ⟨sameId, known⟩ := wallet.keyed.getID_of_getPubKey wallet.unlocked wallet.derivable got
      rw [same] at sameId
      rw [sameId, known] at isNew
      exact nomatch isNew

theorem run_append (w : WalletKeys) (before : List HDOp) (op : HDOp) : run f cipher w (before ++ [op]) =
    match run f cipher w before with
    | .error e => .error e
    | .ok w' => (w'.step f cipher op).map Prod.snd := by
  unfold run
  rw [List.foldlM_append]
  cases before.foldlM (fun w op => (step f cipher w op).map Prod.snd) w with
  | error e => rfl
  | ok w' =>
    show List.foldlM (fun w op => (step f cipher w op).map Prod.snd) w' [op] = _
    rw [List.foldlM_cons]
    dsimp only
    cases step f cipher w' op <;> rfl

/-- In a run of calls for accounts with the path of account 0 every call returns a new key that the wallet can derive again,
and no counter goes back; the first call for another account records a key that it cannot. -/
theorem keys_derived_back {chain : CHDChain} (start : w.HDWallet f cipher chain) (apart : ChildrenApart f chain) (ops : List HDOp)
    (meets : ∀ before op w₁, before ++ [op] <+: ops → run f cipher w before = .ok w₁ → w₁.Meets f cipher op) :
    (∀ before op, before ++ [op] <+: ops → ∃ w₁ ret w₂, run f cipher w before = .ok w₁ ∧ w₁.step f cipher op = .ok (ret, w₂) ∧
      w₂.Derivable f cipher ∧ Advances w₁ w₂ ∧
      ∀ pubkey, ret = some pubkey → w₁.haveKey (f.getID pubkey) = false ∧
        ∀ id pubkey', w₁.getPubKey f id = some pubkey' → pubkey' ≠ pubkey) ∧
    ∀ nAccountIndex fInternal w₁ ret w₂, nAccountIndex ||| HARDENED ≠ HARDENED → run f cipher w ops = .ok w₁ →
      w₁.step f cipher (.generateNewKey nAccountIndex fInternal) = .ok (ret, w₂) → ¬w₂.Derivable f cipher := by
  have along : ∀ before, before <+: ops → ∃ w₁ chain₁, run f cipher w before = .ok w₁ ∧ w₁.HDWallet f cipher chain₁ ∧
      chain₁.vchSeed = chain.vchSeed := by
    intro before
    induction before using List.reverseRecOn with
    | nil => exact fun _ => ⟨w, chain, rfl, start, rfl⟩
    | append_singleton before op ih =>
      intro inside
      obtain ⟨w₁, chain₁, reached, wallet, seed⟩ := ih ((List.prefix_append before [op]).trans inside)
      obtain ⟨ret, w₂, chain₂, stepped, wallet', seed', _⟩ := wallet.step_meets (meets before op w₁ inside reached)
      exact ⟨w₂, chain₂, by rw [run_append, reached]; simp [stepped, Except.map], wallet', seed'.trans seed⟩
  constructor
  · intro before op inside
    obtain ⟨w₁, chain₁, reached, wallet, _⟩ := along before ((List.prefix_append before [op]).trans inside)
    obtain ⟨ret, w₂, chain₂, stepped, wallet', _, advances, isNew⟩ := wallet.step_meets (meets before op w₁ inside reached)
    exact ⟨w₁, ret, w₂, reached, stepped, wallet'.derivable, advances, isNew⟩
  · intro nAccountIndex fInternal w₁ ret w₂ other reached stepped
    obtain ⟨w₁', chain₁, reached', wallet, seed⟩ := along ops List.prefix_rfl
    rw [reached] at reached'
    obtain rfl := Except.ok.inj reached'
    cases account : chain₁.getAccount nAccountIndex with
    | none =>
      rw [wallet.generateNewKey_none fInternal account] at stepped
      exact nomatch stepped
    | some acc =>
      rw [wallet.generateNewKey fInternal account] at stepped
      split at stepped
      · exact nomatch stepped
      · rename_i childKey next found
        obtain ⟨m, isChild, _, _⟩ := findChild_new found
        obtain ⟨_, rfl⟩ := Prod.mk.inj (Except.ok.inj stepped)
        have apart₁ : ChildrenApart f chain₁ := by
          intro a b i j m n
          simp only [CHDChain.deriveChildExtKey, seed]
          exact apart a b i j m n
        exact (wallet.unlocked.derivable_withChild wallet.derivable isChild).2 apart₁ other

def fourBytes (n : UInt32) : valtype := [0, 1, 2, 3].map fun i => UInt8.ofNat (n.toNat / 256 ^ i)

theorem fourBytes_injective (same : fourBytes m = fourBytes n) : m = n := by
  have digits : ∀ i ∈ [0, 1, 2, 3], m.toNat / 256 ^ i % 256 = n.toNat / 256 ^ i % 256 := by
    intro i member
    have byte := List.map_inj_left.mp same i member
    have value := congrArg UInt8.toNat byte
    simpa using value
  have d0 := digits 0 (by simp)
  have d1 := digits 1 (by simp)
  have d2 := digits 2 (by simp)
  have d3 := digits 3 (by simp)
  have boundM := m.toNat_lt
  have boundN := n.toNat_lt
  apply UInt32.toNat_inj.mp
  omega

def pathKeys : KeyFunctions where
  check := fun _ => true
  getPubKey := CKey.keydata
  getID := fun pubkey => ⟨(pubkey ++ List.replicate 20 0).take 20, CKeyID.size_padded pubkey⟩
  getHash := fun _ => 0
  seedHash := fun _ => 1
  setMaster := fun _ => { nChild := 0, chaincode := 0, key := { keydata := List.replicate 20 0, fCompressed := true, fValid := true } }
  deriveKey := fun parent nChild => ({ keydata := parent.key.keydata.drop 4 ++ fourBytes nChild, fCompressed := true, fValid := true }, 0)
  extCoinType := 119

theorem pathKeys_apart (chain : CHDChain) : ChildrenApart pathKeys chain := by
  intro a b i j m n same
  have bytes : ∀ a i m, (pathKeys.getID (pathKeys.getPubKey (chain.deriveChildExtKey pathKeys a i m).key)).bytes =
      fourBytes (44 ||| HARDENED) ++ fourBytes (119 ||| HARDENED) ++ fourBytes (a ||| HARDENED) ++
        fourBytes (if i then 1 else 0) ++ fourBytes m := by
    intro a i m
    rfl
  have same := congrArg CKeyID.bytes same
  rw [bytes, bytes] at same
  obtain ⟨first, child⟩ := List.append_inj same (by rfl)
  obtain ⟨first, change⟩ := List.append_inj first (by rfl)
  obtain ⟨_, account⟩ := List.append_inj first (by rfl)
  refine ⟨fourBytes_injective account, ?_, fourBytes_injective child⟩
  have change := fourBytes_injective change
  cases i <;> cases j <;> simp_all

def noCipher : Cipher := { encrypt := fun _ _ _ => none, decrypt := fun _ _ _ => none, bytesToKey := fun _ _ _ => none }

def twoAccounts : WalletKeys := { hdChain := CHDChain.addAccount { id := 1, vchSeed := [7] } }

theorem twoAccounts_start : twoAccounts.HDWallet pathKeys noCipher twoAccounts.hdChain where
  unlocked := ⟨rfl, rfl, rfl, rfl, rfl⟩
  derivable := fun _ present => nomatch present
  keyed := ⟨fun _ _ found => (nomatch found), fun _ _ found => (nomatch found)⟩

theorem first_account_derived : ∃ w₁ ret w₂, run pathKeys noCipher twoAccounts [] = .ok w₁ ∧
    w₁.step pathKeys noCipher (.generateNewKey 0 false) = .ok (ret, w₂) ∧ w₂.Derivable pathKeys noCipher := by
  have meets : ∀ before op w₁, before ++ [op] <+: [HDOp.generateNewKey 0 false] → run pathKeys noCipher twoAccounts before = .ok w₁ →
      w₁.Meets pathKeys noCipher op := by
    intro before op w₁ inside reached
    have length := inside.length_le
    rw [List.length_append, List.length_singleton, List.length_singleton] at length
    obtain rfl : before = [] := List.length_eq_zero_iff.mp (by omega)
    obtain rfl := Except.ok.inj reached
    obtain rfl := List.singleton_prefix_cons_iff.mp inside
    intro chain opened
    rw [twoAccounts_start.unlocked.getDecryptedHDChain] at opened
    obtain rfl := Option.some.inj opened
    exact ⟨{}, rfl, rfl, 0, Nat.le_refl _, by decide, rfl⟩
  obtain ⟨holds, _⟩ := keys_derived_back twoAccounts_start (pathKeys_apart _) [.generateNewKey 0 false] meets
  obtain ⟨w₁, ret, w₂, reached, stepped, derivable, _⟩ := holds [] (.generateNewKey 0 false) (List.prefix_rfl)
  exact ⟨w₁, ret, w₂, reached, stepped, derivable⟩

/-- A key for the second account, whose private key is not derived again. -/
theorem second_account_not_derived : ∃ w', run pathKeys noCipher twoAccounts [.generateNewKey 1 false] = .ok w' ∧
    ¬w'.Derivable pathKeys noCipher := by
  have account : twoAccounts.hdChain.getAccount 1 = some {} := rfl
  have unknown : twoAccounts.haveKey (pathKeys.getID (pathKeys.getPubKey
      (twoAccounts.hdChain.deriveChildExtKey pathKeys 1 false (UInt32.ofNat 0)).key)) = false := rfl
  obtain ⟨m, found, _⟩ := findChild_of_room (by decide) unknown (2 ^ 32) 0 (Nat.le_refl _) (by decide)
  have stepped := twoAccounts_start.generateNewKey false account
  rw [show counter {} false = 0 from rfl, found] at stepped
  have notDerivable : ¬(twoAccounts.withChild pathKeys 1 false {} (twoAccounts.hdChain.deriveChildExtKey pathKeys 1 false m)
      (m + 1)).Derivable pathKeys noCipher :=
    (twoAccounts_start.unlocked.derivable_withChild twoAccounts_start.derivable rfl).2 (pathKeys_apart _) (by decide)
  refine ⟨_, ?_, notDerivable⟩
  show run pathKeys noCipher twoAccounts ([] ++ [.generateNewKey 1 false]) = _
  rw [run_append]
  show (step pathKeys noCipher twoAccounts (.generateNewKey 1 false)).map Prod.snd = _
  rw [stepped]
  rfl

end WalletKeys

end SchillingCoin
