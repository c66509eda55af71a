import SchillingCoin.Wallet.HDKeys

/-!
Encryption of a wallet: every key and the chain come back when the wallet is unlocked with the passphrase, and nothing
comes out of a wallet that is locked.
-/

namespace SchillingCoin

/-- What the wallet relies on: decryption inverts encryption, a ciphertext is padded to at least a block, and a public key
shows whether its private key is a compressed one. -/
structure Cipher.Lawful (f : KeyFunctions) (cipher : Cipher) : Prop where
  inverts : ∀ key iv plain crypted, cipher.encrypt key iv plain = some crypted → cipher.decrypt key iv crypted = some plain
  padded : ∀ key iv plain crypted, cipher.encrypt key iv plain = some crypted → crypted ≠ []
  compressed : ∀ key, key.fValid = true → isCompressed (f.getPubKey key) = key.fCompressed

namespace WalletKeys

variable {f : KeyFunctions} {cipher : Cipher} {w w' : WalletKeys}

structure ValidKey (f : KeyFunctions) (key : CKey) : Prop where
  valid : key.fValid = true
  size : key.keydata.length = 32
  checked : f.check key.keydata = true

structure Plain (f : KeyFunctions) (w : WalletKeys) : Prop where
  plain : w.fUseCrypto = false
  noCryptedKeys : w.mapCryptedKeys = ∅
  noCryptedChain : w.cryptedHDChain.isNull = true ∧ w.cryptedHDChain.fCrypted = false
  keys : ∀ id key, w.mapKeys.lookup id = some key → f.getID (f.getPubKey key) = id ∧ ValidKey f key
  chain : w.hdChain.isNull = false → w.hdChain.id = w.hdChain.getSeedHash f ∧ w.hdChain.fCrypted = false
  something : (∃ id key, w.mapKeys.lookup id = some key) ∨ w.hdChain.isNull = false

variable {vMasterKey crypted : valtype} {key : CKey} {id : CKeyID}

theorem encryptSecret_some (lawful : cipher.Lawful f) (done : cipher.encryptSecret vMasterKey plain nIV = some crypted) :
    cipher.decryptSecret vMasterKey crypted nIV = some plain ∧ crypted ≠ [] := by
  unfold Cipher.encryptSecret at done
  unfold Cipher.decryptSecret
  split at done
  · exact nomatch done
  · rename_i size
    rw [if_neg size]
    exact ⟨lawful.inverts _ _ _ _ done, lawful.padded _ _ _ _ done⟩

theorem decryptKey_encrypted (lawful : cipher.Lawful f) (valid : ValidKey f key)
    (done : cipher.encryptSecret vMasterKey key.bytes (f.getHash (f.getPubKey key)) = some crypted) :
    decryptKey f cipher vMasterKey (f.getPubKey key, crypted) = some key := by
  have opened := (encryptSecret_some lawful done).1
  have bytes : key.bytes = key.keydata := by simp [CKey.bytes, valid.valid]
  rw [bytes] at opened
  simp only [decryptKey, opened, Option.bind_eq_bind, Option.bind_some, valid.size, ne_eq, not_true_eq_false, if_false,
    KeyFunctions.set, valid.checked, if_true, lawful.compressed key valid.valid]
  rw [← valid.valid]

theorem unlessEmpty_encrypted (lawful : cipher.Lawful f)
    (done : Cipher.unlessEmpty (fun vch => cipher.encryptSecret vMasterKey vch nIV) plain = some crypted) :
    Cipher.unlessEmpty (fun vch => cipher.decryptSecret vMasterKey vch nIV) crypted = some plain ∧ (crypted = [] ↔ plain = []) := by
  unfold Cipher.unlessEmpty at *
  by_cases empty : plain = []
  · subst empty
    obtain rfl := Option.some.inj done
    exact ⟨rfl, Iff.rfl⟩
  · rw [if_neg (by simpa using empty)] at done
    obtain ⟨opened, notEmpty⟩ := encryptSecret_some lawful done
    rw [if_neg (by simpa using notEmpty)]
    exact ⟨opened, by simp [notEmpty, empty]⟩

theorem encryptHDChain_opens (lawful : cipher.Lawful f) (noChain : w.cryptedHDChain.isNull = true)
    (notFlagged : w.cryptedHDChain.fCrypted = false) (present : w.hdChain.isNull = false)
    (plain : w.hdChain.fCrypted = false) (done : w.encryptHDChain f cipher vMasterKey = some w') :
    ∃ crypted, w' = { w with cryptedHDChain := crypted, hdChain := {} } ∧ Opens f cipher vMasterKey crypted w.hdChain := by
  unfold encryptHDChain at done
  simp only [noChain, notFlagged, Bool.not_true, Bool.false_eq_true, if_false] at done
  split_ifs at done with _ wrong
  split at done
  · exact nomatch done
  · rename_i seed encryptedSeed
    split at done
    · exact nomatch done
    · rename_i seeded isSeeded
      obtain ⟨present', rfl⟩ := orNone_eq_some.mp isSeeded
      split at done
      · exact nomatch done
      · rename_i crypted mnemonic
        obtain ⟨crypts, same⟩ := (cryptMnemonic_eq_some present' rfl rfl).mp mnemonic
        refine ⟨crypted, (Option.some.inj done).symm, ?_⟩
        have sameId : crypted.id = w.hdChain.id := by rw [same]
        have sameSeed : crypted.vchSeed = seed := by rw [same]
        refine ⟨by rw [same], ?_, ?_, (isNull_false_iff.mp present).1, ?_, ?_, sameId.symm, plain, by rw [same]⟩
        · rw [isNull_false_iff, sameId, sameSeed]
          exact isNull_false_iff.mp present'
        · rw [sameId, sameSeed]
          exact (encryptSecret_some lawful encryptedSeed).1
        · rw [sameId]
          simpa [CHDChain.getSeedHash] using (not_not.mp wrong).symm
        · unfold Crypts at *
          rw [sameId]
          by_cases empty : w.hdChain.vchMnemonic = []
          · rw [if_pos empty] at crypts
            rw [if_pos crypts.1]
            exact ⟨empty, crypts.2.symm⟩
          · rw [if_neg empty] at crypts
            obtain ⟨first, notEmpty⟩ := unlessEmpty_encrypted lawful crypts.1
            obtain ⟨second, _⟩ := unlessEmpty_encrypted lawful crypts.2
            rw [if_neg (by rw [notEmpty]; exact empty)]
            exact ⟨first, second⟩

/-- The encrypted wallet `w` has everything that the plain wallet had, under a master key. -/
structure Keeps (f : KeyFunctions) (cipher : Cipher) (vMasterKey : valtype) (plain w : WalletKeys) : Prop where
  crypto : w.fUseCrypto = true
  keys : ∀ id key, plain.mapKeys.lookup id = some key →
    ∃ entry, w.mapCryptedKeys.lookup id = some entry ∧ decryptKey f cipher vMasterKey entry = some key
  opened : ∀ id entry, w.mapCryptedKeys.lookup id = some entry →
    ∃ key, decryptKey f cipher vMasterKey entry = some key ∧ f.getPubKey key = entry.1
  records : ∀ id, plain.haveKey id = true → w.mapHdPubKeys.lookup id = plain.mapHdPubKeys.lookup id
  noChain : plain.hdChain.isNull = true → w.cryptedHDChain.isNull = true
  chain : plain.hdChain.isNull = false → w.fFileBacked = true ∧
    ∃ chain, Opens f cipher vMasterKey w.cryptedHDChain chain ∧ chain.id = plain.hdChain.id ∧ chain.vchSeed = plain.hdChain.vchSeed ∧
      chain.vchMnemonic = plain.hdChain.vchMnemonic ∧ chain.vchMnemonicPassphrase = plain.hdChain.vchMnemonicPassphrase

variable {plain : WalletKeys} {vMasterKey : valtype}

theorem Keeps.congr (keeps : Keeps f cipher vMasterKey plain w) (crypto : w'.fUseCrypto = w.fUseCrypto)
    (keys : w'.mapCryptedKeys = w.mapCryptedKeys) (records : w'.mapHdPubKeys = w.mapHdPubKeys) (chain : w'.cryptedHDChain = w.cryptedHDChain)
    (backed : w'.fFileBacked = w.fFileBacked) : Keeps f cipher vMasterKey plain w' := by
  refine ⟨?_, ?_, ?_, ?_, ?_, ?_⟩
  · rw [crypto]
    exact keeps.crypto
  · rw [keys]
    exact keeps.keys
  · rw [keys]
    exact keeps.opened
  · rw [records]
    exact keeps.records
  · rw [chain]
    exact keeps.noChain
  · rw [chain, backed]
    exact keeps.chain

theorem encryptKey_fold (lawful : cipher.Lawful f) (keys : List CKey) (valid : ∀ key ∈ keys, ValidKey f key) (crypto : w.fUseCrypto = true)
    (done : keys.foldlM (encryptKey f cipher vMasterKey) w = some w') :
    (∃ crypted, w' = { w with mapCryptedKeys := crypted }) ∧
      (∀ id, (w.mapCryptedKeys.lookup id).isSome → (w'.mapCryptedKeys.lookup id).isSome) ∧
      (∀ key ∈ keys, (w'.mapCryptedKeys.lookup (f.getID (f.getPubKey key))).isSome) ∧
      ∀ id entry, w'.mapCryptedKeys.lookup id = some entry → w.mapCryptedKeys.lookup id = some entry ∨
        ∃ key ∈ keys, f.getID (f.getPubKey key) = id ∧ entry.1 = f.getPubKey key ∧ decryptKey f cipher vMasterKey entry = some key := by
  induction keys generalizing w with
  | nil =>
    obtain rfl := Option.some.inj done
    exact ⟨⟨_, rfl⟩, fun _ there => there, fun _ member => absurd member List.not_mem_nil, fun _ _ there => .inl there⟩
  | cons key rest ih =>
    rw [List.foldlM_cons, Option.bind_eq_bind] at done
    obtain ⟨w₁, first, done⟩ := Option.bind_eq_some_iff.mp done
    obtain ⟨secret, encrypted, added⟩ := Option.bind_eq_some_iff.mp first
    rw [addCryptedKey, setCrypted, if_pos crypto] at added
    obtain rfl := Option.some.inj added
    obtain ⟨⟨crypted, same⟩, kept, all, sources⟩ := ih (fun key member => valid key (List.mem_cons_of_mem _ member)) (by exact crypto) done
    have there : ∀ id, (w.mapCryptedKeys.lookup id).isSome ∨ id = f.getID (f.getPubKey key) → (w'.mapCryptedKeys.lookup id).isSome := by
      intro id cases
      apply kept
      rw [StdMap.lookup_insert_ite]
      split
      · rfl
      · rename_i other
        exact cases.resolve_right other
    refine ⟨⟨crypted, same⟩, fun id before => there id (.inl before), ?_, ?_⟩
    · intro key' member
      rcases List.mem_cons.mp member with rfl | member
      · exact there _ (.inr rfl)
      · exact all key' member
    · intro id entry found
      rcases sources id entry found with before | ⟨key', member, source⟩
      · rw [StdMap.lookup_insert_ite] at before
        split at before
        · rename_i here
          obtain rfl := Option.some.inj before
          exact .inr ⟨key, List.mem_cons_self, here.symm, rfl,
            decryptKey_encrypted lawful (valid key List.mem_cons_self) encrypted⟩
        · exact .inl before
      · exact .inr ⟨key', List.mem_cons_of_mem _ member, source⟩

theorem mem_mapKeys : key ∈ w.mapKeys.entries.map Sigma.snd ↔ ∃ id, w.mapKeys.lookup id = some key := by
  constructor
  · intro member
    obtain ⟨⟨id, _⟩, entry, rfl⟩ := List.mem_map.mp member
    exact ⟨id, StdMap.mem_entries_iff.mp entry⟩
  · rintro ⟨id, found⟩
    exact List.mem_map.mpr ⟨⟨id, key⟩, StdMap.mem_entries_iff.mpr found, rfl⟩

theorem encryptKeys_keeps (lawful : cipher.Lawful f) (start : w.Plain f) (done : w.encryptKeys f cipher vMasterKey = some w') :
    (∃ crypted, w' = { w with mapKeys := ∅, fUseCrypto := true, mapCryptedKeys := crypted }) ∧
      (∀ id key, w.mapKeys.lookup id = some key →
        ∃ entry, w'.mapCryptedKeys.lookup id = some entry ∧ decryptKey f cipher vMasterKey entry = some key) ∧
      ∀ id entry, w'.mapCryptedKeys.lookup id = some entry →
        ∃ key, decryptKey f cipher vMasterKey entry = some key ∧ f.getPubKey key = entry.1 := by
  unfold encryptKeys at done
  split at done
  · exact nomatch done
  · obtain ⟨w₁, folded, rest⟩ := Option.bind_eq_some_iff.mp done
    obtain rfl := Option.some.inj rest
    have valid : ∀ key ∈ w.mapKeys.entries.map Sigma.snd, ValidKey f key := by
      intro key member
      obtain ⟨id, found⟩ := mem_mapKeys.mp member
      exact (start.keys id key found).2
    obtain ⟨⟨crypted, same⟩, _, all, sources⟩ := encryptKey_fold lawful _ valid rfl folded
    have source : ∀ id entry, w₁.mapCryptedKeys.lookup id = some entry → ∃ key, w.mapKeys.lookup id = some key ∧
        entry.1 = f.getPubKey key ∧ decryptKey f cipher vMasterKey entry = some key := by
      intro id entry found
      rcases sources id entry found with before | ⟨key, member, isId, pubkey, opens⟩
      · rw [start.noCryptedKeys] at before
        exact nomatch before
      · obtain ⟨id', found'⟩ := mem_mapKeys.mp member
        rw [(start.keys id' key found').1] at isId
        exact ⟨key, isId ▸ found', pubkey, opens⟩
    refine ⟨⟨crypted, by rw [same]⟩, ?_, ?_⟩
    · intro id key found
      have there := all key (mem_mapKeys.mpr ⟨id, found⟩)
      rw [(start.keys id key found).1] at there
      obtain ⟨entry, isEntry⟩ := Option.isSome_iff_exists.mp there
      obtain ⟨key', found', _, opens⟩ := source id entry isEntry
      rw [found] at found'
      exact ⟨entry, isEntry, Option.some.inj found' ▸ opens⟩
    · intro id entry found
      obtain ⟨key, _, pubkey, opens⟩ := source id entry found
      exact ⟨key, opens, pubkey.symm⟩

theorem Plain.getHDChain (start : w.Plain f) : w.getHDChain = if w.hdChain.isNull then none else some w.hdChain := by
  simp [WalletKeys.getHDChain, start.plain]

theorem encryptAll_keeps (lawful : cipher.Lawful f) (start : w.Plain f) (done : w.encryptAll f cipher vMasterKey = .ok w') :
    Keeps f cipher vMasterKey w w' ∧ w'.mapMasterKeys = w.mapMasterKeys := by
  unfold encryptAll at done
  rw [start.getHDChain] at done
  dsimp only at done
  split at done
  · cases done
  · rename_i w₁ encrypted
    obtain ⟨⟨crypted, rfl⟩, keys, opened⟩ := encryptKeys_keeps lawful start encrypted
    split at done
    · -- no chain
      rename_i noChain
      have isNull : w.hdChain.isNull = true := by
        by_contra present
        rw [if_neg present] at noChain
        cases noChain
      obtain rfl := Except.ok.inj done
      refine ⟨⟨rfl, keys, opened, fun _ _ => rfl, fun _ => start.noCryptedChain.1, fun present => ?_⟩, rfl⟩
      rw [isNull] at present
      cases present
    · rename_i chain isChain
      have present : w.hdChain.isNull = false := by
        by_contra isNull
        rw [if_pos (by simpa using isNull)] at isChain
        cases isChain
      split at done
      · cases done
      · rename_i w₂ encryptedChain
        obtain ⟨cryptedChain, rfl, opens⟩ := encryptHDChain_opens lawful (by exact start.noCryptedChain.1)
          (by exact start.noCryptedChain.2) (by exact present) (by exact (start.chain present).2) encryptedChain
        have stored : WalletKeys.getHDChain { w with
            mapKeys := ∅, fUseCrypto := true, mapCryptedKeys := crypted, cryptedHDChain := cryptedChain, hdChain := {} } =
            some cryptedChain := by
          simp [WalletKeys.getHDChain, opens.present]
        simp only [stored] at done
        split_ifs at done
        split at done
        · cases done
        · rename_i w₃ written
          obtain rfl := Except.ok.inj done
          simp only [setCryptedHDChain, setCrypted, if_true, opens.flagged, Bool.not_true, Bool.false_eq_true, if_false,
            Option.bind_eq_bind, Option.bind_some] at written
          split at written
          · cases written
          · rename_i backed
            obtain rfl := Option.some.inj written
            refine ⟨⟨rfl, keys, opened, fun _ _ => rfl, fun isNull => ?_, fun _ => ⟨by simpa using backed, _, opens, rfl, rfl, rfl, rfl⟩⟩, rfl⟩
            rw [present] at isNull
            cases isNull

theorem tryKeys_opened (fOne : Bool) (entries : List (CPubKey × valtype)) (keyPass : Bool)
    (opened : ∀ entry ∈ entries, ∃ key, decryptKey f cipher vMasterKey entry = some key ∧ f.getPubKey key = entry.1) :
    tryKeys f cipher vMasterKey fOne entries keyPass = (keyPass || !entries.isEmpty, false) := by
  induction entries generalizing keyPass with
  | nil => simp [tryKeys]
  | cons entry rest ih =>
    obtain ⟨key, opens, pubkey⟩ := opened entry List.mem_cons_self
    have others := ih true fun entry member => opened entry (List.mem_cons_of_mem _ member)
    simp only [tryKeys, opens, pubkey, ne_eq, not_true_eq_false, if_false, others]
    cases fOne <;> simp

def unlockedWith (w : WalletKeys) (vMasterKey : valtype) : WalletKeys :=
  { w with vMasterKey := vMasterKey, fDecryptionThoroughlyChecked := true }

theorem Keeps.unlocked (keeps : Keeps f cipher vMasterKey plain w) (isKey : w.vMasterKey = vMasterKey) (present : plain.hdChain.isNull = false) :
    ∃ chain, w.Unlocked f cipher chain ∧ chain.id = plain.hdChain.id ∧ chain.vchSeed = plain.hdChain.vchSeed ∧
      chain.vchMnemonic = plain.hdChain.vchMnemonic ∧ chain.vchMnemonicPassphrase = plain.hdChain.vchMnemonicPassphrase := by
  obtain ⟨backed, chain, opens, same⟩ := keeps.chain present
  have stored : w.storedChain = w.cryptedHDChain := by simp [storedChain, keeps.crypto]
  refine ⟨chain, ⟨?_, decrypt_storedChain.mpr ?_, ?_, ?_, backed⟩, same⟩
  · rw [stored]
    exact opens.present
  · rw [if_pos keeps.crypto, stored, isKey]
    exact opens
  · rw [opens.sameId]
    exact opens.seedHash.symm
  · rw [stored, keeps.crypto]
    exact opens.flagged

theorem Keeps.unlockWith (keeps : Keeps f cipher vMasterKey plain w) (start : plain.Plain f) :
    w.unlockWith f cipher vMasterKey = .ok (true, w.unlockedWith vMasterKey) := by
  have opened : ∀ entry ∈ w.mapCryptedKeys.entries.map Sigma.snd,
      ∃ key, decryptKey f cipher vMasterKey entry = some key ∧ f.getPubKey key = entry.1 := by
    intro entry member
    obtain ⟨⟨id, _⟩, there, rfl⟩ := List.mem_map.mp member
    exact keeps.opened id _ (StdMap.mem_entries_iff.mp there)
  have tried := tryKeys_opened w.fDecryptionThoroughlyChecked _ false opened
  have evidence : w.cryptedHDChain.isNull = true → w.mapCryptedKeys.entries.map Sigma.snd ≠ [] := by
    intro noChain empty
    rcases start.something with ⟨id, key, found⟩ | present
    · obtain ⟨entry, there, _⟩ := keeps.keys id key found
      have member := List.mem_map_of_mem (f := Sigma.snd) (StdMap.mem_entries_iff.mpr there)
      rw [empty] at member
      exact absurd member List.not_mem_nil
    · obtain ⟨_, chain, opens, _⟩ := keeps.chain present
      exact absurd noChain (by simp [opens.present])
  have keyed : (!(!(w.mapCryptedKeys.entries.map Sigma.snd).isEmpty) && w.cryptedHDChain.isNull) = false := by
    cases noChain : w.cryptedHDChain.isNull with
    | true => simpa using evidence noChain
    | false => simp
  have chainPass : (w.cryptedHDChain.isNull || (decryptHDChain f cipher { w with vMasterKey := vMasterKey } {}).any
      fun hdChainTmp => w.cryptedHDChain.id == hdChainTmp.getSeedHash f) = true := by
    cases noChain : w.cryptedHDChain.isNull with
    | true => rfl
    | false =>
      have present : plain.hdChain.isNull = false := by
        by_contra isNull
        rw [keeps.noChain (by simpa using isNull)] at noChain
        exact nomatch noChain
      obtain ⟨_, chain, opens, _⟩ := keeps.chain present
      have decrypted : decryptHDChain f cipher { w with vMasterKey := vMasterKey } {} = some chain :=
        (decryptHDChain_eq_some (w := { w with vMasterKey := vMasterKey }) keeps.crypto).mpr opens
      rw [decrypted, Bool.false_or]
      simp [CHDChain.getSeedHash, opens.seedHash]
  unfold WalletKeys.unlockWith
  simp only [setCrypted, if_pos keeps.crypto, tried, Bool.and_false, Bool.false_eq_true, if_false, Bool.false_or, keyed, chainPass,
    Bool.not_true]
  rfl

def Opened (cipher : Cipher) (strWalletPassphrase vMasterKey : valtype) (w : WalletKeys) : Prop :=
  ∃ kMasterKey chKey chIV, w.mapMasterKeys = [kMasterKey] ∧
    cipher.setKeyFromPassphrase strWalletPassphrase kMasterKey.vchSalt kMasterKey.nDeriveIterations kMasterKey.nDerivationMethod =
      some (chKey, chIV) ∧ cipher.decrypt chKey chIV kMasterKey.vchCryptedKey = some vMasterKey

theorem Keeps.unlock (keeps : Keeps f cipher vMasterKey plain w) (start : plain.Plain f)
    (opened : Opened cipher strWalletPassphrase vMasterKey w) :
    w.unlock f cipher strWalletPassphrase = .ok (true, w.unlockedWith vMasterKey) := by
  obtain ⟨kMasterKey, chKey, chIV, one, derived, decrypted⟩ := opened
  simp only [WalletKeys.unlock, one, unlockFrom, derived, decrypted, keeps.unlockWith start]

structure Fresh (f : KeyFunctions) (plain : WalletKeys) (key : CKey) : Prop where
  valid : ValidKey f key
  apart : ∀ key', plain.mapKeys.lookup (f.getID (f.getPubKey key)) = some key' → key' = key

section

variable (keeps : Keeps f cipher vMasterKey plain w)

include keeps

theorem Keeps.haveKey (start : plain.Plain f) (known : plain.haveKey id = true) : w.haveKey id = true := by
  have record := keeps.records id known
  simp only [WalletKeys.haveKey, start.plain, keeps.crypto, Bool.not_false, Bool.not_true, if_true, Bool.false_eq_true, if_false,
    Bool.or_eq_true] at known ⊢
  rcases known with recorded | stored
  · rw [record]
    exact .inl recorded
  · obtain ⟨key, found⟩ := Option.isSome_iff_exists.mp stored
    obtain ⟨entry, there, _⟩ := keeps.keys id key found
    exact .inr (by rw [there]; rfl)

theorem Keeps.withChild (start : plain.Plain f) (unknown : w.haveKey (f.getID (f.getPubKey childKey.key)) = false) :
    Keeps f cipher vMasterKey plain (w.withChild f nAccountIndex fInternal acc childKey next) := by
  have chain : (w.withChild f nAccountIndex fInternal acc childKey next).cryptedHDChain =
      { w.cryptedHDChain with
        mapAccounts := w.cryptedHDChain.mapAccounts.insert nAccountIndex (advance acc fInternal next) } := by
    simp [WalletKeys.withChild, addHDPubKey, withChain, storedChain, keeps.crypto]
  have keys : (w.withChild f nAccountIndex fInternal acc childKey next).mapCryptedKeys = w.mapCryptedKeys := by
    simp [WalletKeys.withChild, addHDPubKey]
  have backed : (w.withChild f nAccountIndex fInternal acc childKey next).fFileBacked = w.fFileBacked := by
    simp [WalletKeys.withChild, addHDPubKey]
  refine ⟨?_, ?_, ?_, ?_, ?_, ?_⟩
  · simp [WalletKeys.withChild, addHDPubKey, keeps.crypto]
  · rw [keys]
    exact keeps.keys
  · rw [keys]
    exact keeps.opened
  · intro id known
    obtain ⟨chainID, looked⟩ := lookup_withChild f w nAccountIndex fInternal acc childKey next id
    rw [looked, if_neg]
    · exact keeps.records id known
    · rintro rfl
      rw [keeps.haveKey start known] at unknown
      cases unknown
  · intro noChain
    rw [chain]
    exact keeps.noChain noChain
  · intro present
    obtain ⟨isBacked, opened, opens, same⟩ := keeps.chain present
    rw [backed, chain]
    refine ⟨isBacked, { opened with
      mapAccounts := w.cryptedHDChain.mapAccounts.insert nAccountIndex (advance acc fInternal next) }, ?_, same⟩
    exact ⟨opens.flagged, opens.present, opens.seed, opens.seedPresent, opens.seedHash, opens.mnemonic, opens.sameId, opens.plain, rfl⟩

theorem Keeps.addKeyPubKey (lawful : cipher.Lawful f) (isKey : w.vMasterKey = vMasterKey) (fresh : Fresh f plain key)
    (done : w.addKeyPubKey f cipher key (f.getPubKey key) = some w') :
    Keeps f cipher vMasterKey plain w' ∧ w'.vMasterKey = w.vMasterKey ∧ w'.mapMasterKeys = w.mapMasterKeys := by
  unfold WalletKeys.addKeyPubKey at done
  rw [if_neg (by simp [keeps.crypto])] at done
  split at done
  · exact nomatch done
  · obtain ⟨secret, encrypted, added⟩ := Option.bind_eq_some_iff.mp done
    rw [addCryptedKey, setCrypted, if_pos keeps.crypto] at added
    obtain rfl := Option.some.inj added
    rw [isKey] at encrypted
    have opens := decryptKey_encrypted lawful fresh.valid encrypted
    refine ⟨⟨keeps.crypto, ?_, ?_, keeps.records, keeps.noChain, keeps.chain⟩, rfl, rfl⟩
    · intro id key' found
      rw [StdMap.lookup_insert_ite]
      split
      · rename_i here
        rw [here] at found
        exact ⟨_, rfl, fresh.apart key' found ▸ opens⟩
      · exact keeps.keys id key' found
    · intro id entry found
      rw [StdMap.lookup_insert_ite] at found
      split at found
      · obtain rfl := Option.some.inj found
        exact ⟨key, opens, rfl⟩
      · exact keeps.opened id entry found

theorem Keeps.generateNewKey (lawful : cipher.Lawful f) (start : plain.Plain f) (isKey : w.vMasterKey = vMasterKey)
    (fresh : Fresh f plain secret) (done : w.generateNewKey f cipher 0 fInternal secret = .ok (pubkey, w')) :
    Keeps f cipher vMasterKey plain w' ∧ w'.vMasterKey = w.vMasterKey ∧ w'.mapMasterKeys = w.mapMasterKeys := by
  unfold WalletKeys.generateNewKey at done
  cases present : plain.hdChain.isNull with
  | true =>
    have disabled : w.isHDEnabled = false := by
      simp [isHDEnabled, getHDChain, keeps.crypto, keeps.noChain present]
    rw [if_neg (by simp [disabled])] at done
    split at done
    · cases done
    · rename_i added
      obtain ⟨_, rfl⟩ := Prod.mk.inj (Except.ok.inj done)
      exact keeps.addKeyPubKey lawful isKey fresh added
  | false =>
    obtain ⟨chain, unlocked, _⟩ := keeps.unlocked isKey present
    have stored : w.getHDChain = some w.storedChain := getHDChain_eq_some.mpr ⟨unlocked.present, rfl⟩
    rw [if_pos (by simp [isHDEnabled, stored])] at done
    obtain ⟨⟨secret', w₁⟩, derived, done⟩ := Checked.bind_ok done
    obtain ⟨_, rfl⟩ := Prod.mk.inj (Except.ok.inj done)
    cases account : chain.getAccount 0 with
    | none =>
      have right := unlocked.right
      simp [WalletKeys.deriveNewChildKey, stored, unlocked.opens, ← right, account] at derived
    | some acc =>
      rw [unlocked.deriveNewChildKey fInternal account] at derived
      split at derived
      · cases derived
      · rename_i childKey next found
        obtain ⟨_, rfl⟩ := Prod.mk.inj (Except.ok.inj derived)
        obtain ⟨m, isChild, _, unknown⟩ := findChild_new found
        rw [← isChild] at unknown
        exact ⟨keeps.withChild start unknown, by simp [WalletKeys.withChild, addHDPubKey], by simp [WalletKeys.withChild, addHDPubKey]⟩

theorem Keeps.fillKeyPool (lawful : cipher.Lawful f) (start : plain.Plain f) (isKey : w.vMasterKey = vMasterKey)
    (draws : List (Bool × CKey)) (fresh : ∀ d ∈ draws, Fresh f plain d.2) (done : w.fillKeyPool f cipher draws = .ok w') :
    Keeps f cipher vMasterKey plain w' ∧ w'.vMasterKey = vMasterKey ∧ w'.mapMasterKeys = w.mapMasterKeys := by
  unfold WalletKeys.fillKeyPool at done
  split at done
  · obtain rfl := Except.ok.inj done
    exact ⟨keeps, isKey, rfl⟩
  · rename_i notLocked
    clear notLocked
    induction draws generalizing w with
    | nil =>
      obtain rfl := Except.ok.inj done
      exact ⟨keeps, isKey, rfl⟩
    | cons d rest ih =>
      rw [List.foldlM_cons] at done
      obtain ⟨w₁, first, done⟩ := Checked.bind_ok done
      cases generated : w.generateNewKey f cipher 0 d.1 d.2 with
      | error e =>
        rw [generated] at first
        exact nomatch first
      | ok r =>
        rw [generated] at first
        obtain rfl := Except.ok.inj first
        obtain ⟨keeps₁, sameKey, sameMasters⟩ := keeps.generateNewKey lawful start isKey (fresh d List.mem_cons_self) generated
        obtain ⟨keeps', isKey', masters⟩ := ih keeps₁ (sameKey.trans isKey) (fun d member => fresh d (List.mem_cons_of_mem _ member)) done
        exact ⟨keeps', isKey', masters.trans sameMasters⟩

theorem Keeps.getKey (start : plain.Plain f) (isKey : w.vMasterKey = vMasterKey) (known : plain.haveKey id = true) :
    w.getKey f cipher id = plain.getKey f cipher id := by
  have record := keeps.records id known
  cases found : plain.mapHdPubKeys.lookup id with
  | none =>
    rw [found] at record
    have stored : (plain.mapKeys.lookup id).isSome = true := by
      simpa [WalletKeys.haveKey, found, start.plain] using known
    obtain ⟨key, isStored⟩ := Option.isSome_iff_exists.mp stored
    obtain ⟨entry, there, opens⟩ := keeps.keys id key isStored
    rw [← isKey] at opens
    simp [WalletKeys.getKey, record, found, getStoredKey, keeps.crypto, start.plain, isStored, there, opens]
  | some hdPubKey =>
    rw [found] at record
    cases present : plain.hdChain.isNull with
    | true =>
      have noChain := keeps.noChain present
      simp [WalletKeys.getKey, record, found, WalletKeys.getHDChain, keeps.crypto, noChain, start.plain, present]
    | false =>
      obtain ⟨chain, unlocked, _, seed, _⟩ := keeps.unlocked isKey present
      have right := (start.chain present).1
      rw [unlocked.getKey record]
      simp [WalletKeys.getKey, found, start.getHDChain, present, decryptHDChain, start.plain, ← right, rederived,
        CHDChain.deriveChildExtKey, seed]

end

theorem decryptSecret_locked (crypted : valtype) (nIV : uint256) : cipher.decryptSecret [] crypted nIV = none := by
  rw [Cipher.decryptSecret, if_pos (by decide)]

theorem getKey_locked (locked : w.isLocked = true) (id : CKeyID) (key : CKey) : w.getKey f cipher id ≠ .ok (some key) := by
  unfold isLocked at locked
  obtain ⟨crypto, noKey⟩ := Bool.and_eq_true_iff.mp locked
  rw [List.isEmpty_iff] at noKey
  have closed : ∀ ret chain, w.decryptHDChain f cipher ret ≠ some chain := by
    intro ret chain opened
    have seed := ((decryptHDChain_eq_some crypto).mp opened).seed
    rw [noKey, decryptSecret_locked] at seed
    exact nomatch seed
  intro got
  unfold WalletKeys.getKey at got
  split at got
  · split at got
    · exact nomatch got
    · split at got
      · exact nomatch got
      · rename_i chain opened
        exact closed _ chain opened
  · have stored := Except.ok.inj got
    rw [getStoredKey, if_neg (by simp [crypto])] at stored
    obtain ⟨entry, _, opened⟩ := Option.bind_eq_some_iff.mp stored
    obtain ⟨secret, decrypted, _⟩ := Option.bind_eq_some_iff.mp opened
    rw [noKey, decryptSecret_locked] at decrypted
    exact nomatch decrypted

theorem lock_crypted (crypto : w.fUseCrypto = true) : w.lock = { w with vMasterKey := [] } := by
  rw [lock, setCrypted, if_pos crypto]

theorem encryptWallet_keeps (lawful : cipher.Lawful f) (start : w.Plain f) (noMasterKeys : w.mapMasterKeys = [])
    (fresh : ∀ d ∈ draws.first ++ draws.second, Fresh f w d.2)
    (done : w.encryptWallet f cipher strWalletPassphrase draws = .ok (true, w')) :
    Keeps f cipher draws.vMasterKey w w' ∧ Opened cipher strWalletPassphrase draws.vMasterKey w' ∧ w'.vMasterKey = [] := by
  unfold encryptWallet at done
  rw [if_neg (by simp [start.plain])] at done
  dsimp only at done
  split at done
  · exact nomatch done
  · rename_i chKey chIV derived
    split at done
    · exact nomatch done
    · rename_i vchCryptedKey encrypted
      obtain ⟨w₁, all, done⟩ := Checked.bind_ok done
      obtain ⟨⟨unlocked, w₂⟩, opened, done⟩ := Checked.bind_ok done
      obtain ⟨w₃, first, done⟩ := Checked.bind_ok done
      obtain ⟨w₄, second, done⟩ := Checked.bind_ok done
      obtain ⟨_, rfl⟩ := Prod.mk.inj (Except.ok.inj done)
      rw [noMasterKeys, List.nil_append] at all
      have start₁ : Plain f { w with mapMasterKeys := [⟨vchCryptedKey, draws.vchSalt, 0, max draws.nDeriveIterations 25000⟩] } :=
        ⟨start.plain, start.noCryptedKeys, start.noCryptedChain, start.keys, start.chain, start.something⟩
      obtain ⟨keeps, masters⟩ := encryptAll_keeps lawful start₁ all
      have keeps₁ : Keeps f cipher draws.vMasterKey w w₁.lock := by
        rw [lock_crypted keeps.crypto]
        exact ⟨keeps.crypto, keeps.keys, keeps.opened, keeps.records, keeps.noChain, keeps.chain⟩
      have found : ∀ {v : WalletKeys}, v.mapMasterKeys = w₁.mapMasterKeys → Opened cipher strWalletPassphrase draws.vMasterKey v :=
        fun same => ⟨_, chKey, chIV, same.trans masters, derived, lawful.inverts _ _ _ _ encrypted⟩
      have locked : w₁.lock.mapMasterKeys = w₁.mapMasterKeys := by rw [lock_crypted keeps.crypto]
      rw [keeps₁.unlock start (found locked)] at opened
      obtain ⟨_, rfl⟩ := Prod.mk.inj (Except.ok.inj opened)
      have keeps₂ : Keeps f cipher draws.vMasterKey w (w₁.lock.unlockedWith draws.vMasterKey) := keeps₁.congr rfl rfl rfl rfl rfl
      obtain ⟨keeps₃, isKey, masters₃⟩ := keeps₂.fillKeyPool lawful start rfl draws.first
        (fun d member => fresh d (List.mem_append_left _ member)) first
      obtain ⟨keeps₄, _, masters₄⟩ := keeps₃.fillKeyPool lawful start isKey draws.second
        (fun d member => fresh d (List.mem_append_right _ member)) second
      rw [lock_crypted keeps₄.crypto]
      exact ⟨keeps₄.congr rfl rfl rfl rfl rfl, found (masters₄.trans (masters₃.trans locked)), rfl⟩

def plainKeys : KeyFunctions where
  check := fun _ => true
  getPubKey := fun key => if key.fCompressed then 2 :: (key.keydata ++ List.replicate 32 0).take 32
    else 4 :: (key.keydata ++ List.replicate 64 0).take 64
  getID := fun pubkey => ⟨(pubkey ++ List.replicate 20 0).take 20, CKeyID.size_padded pubkey⟩
  getHash := fun _ => 0
  seedHash := fun seed => BitVec.ofNat 256 seed.length
  setMaster := fun _ => { nChild := 0, chaincode := 0, key := { keydata := List.replicate 32 9, fCompressed := true, fValid := true } }
  deriveKey := fun parent nChild =>
    ({ keydata := fourBytes nChild ++ parent.key.keydata.take 28, fCompressed := true, fValid := true }, 0)
  extCoinType := 119

def byteCipher : Cipher where
  encrypt := fun _ _ plain => some (0 :: plain)
  decrypt := fun _ _ crypted => crypted.tail?
  bytesToKey := fun _ _ _ => some (List.replicate 32 0, List.replicate 16 0)

theorem byteCipher_lawful : byteCipher.Lawful plainKeys where
  inverts := by
    rintro key iv plain crypted ⟨⟩
    rfl
  padded := by
    rintro key iv plain crypted ⟨⟩
    simp
  compressed := by
    intro key _
    cases compressed : key.fCompressed <;> simp [plainKeys, isCompressed, compressed]

def importedKey : CKey := { keydata := List.replicate 32 5, fCompressed := true, fValid := true }

def mixedWallet : WalletKeys where
  mapKeys := AList.insert (plainKeys.getID (plainKeys.getPubKey importedKey)) importedKey ∅
  hdChain := { id := 1, vchSeed := [7], vchMnemonic := [1, 2] }

def someDraws : Draws where
  vMasterKey := List.replicate 32 3
  vchSalt := List.replicate 8 4
  nDeriveIterations := 30000
  first := [(false, { importedKey with keydata := List.replicate 32 6 })]
  second := []
  masterKeySize := rfl
  saltSize := rfl

theorem mixedWallet_lookup (found : mixedWallet.mapKeys.lookup id = some key) :
    id = plainKeys.getID (plainKeys.getPubKey importedKey) ∧ key = importedKey := by
  rw [mixedWallet, StdMap.lookup_insert_ite] at found
  split at found
  · rename_i here
    exact ⟨here, (Option.some.inj found).symm⟩
  · exact nomatch found

theorem mixedWallet_plain : mixedWallet.Plain plainKeys where
  plain := rfl
  noCryptedKeys := rfl
  noCryptedChain := ⟨rfl, rfl⟩
  keys := by
    intro id key found
    obtain ⟨rfl, rfl⟩ := mixedWallet_lookup found
    exact ⟨rfl, rfl, rfl, rfl⟩
  chain := fun _ => ⟨rfl, rfl⟩
  something := .inr rfl

end WalletKeys

end SchillingCoin
