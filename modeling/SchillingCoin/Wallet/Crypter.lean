import SchillingCoin.Wallet.HDChain
import SchillingCoin.Lib.Checked

/-!
The keys of a wallet, plain or encrypted, after `crypter.cpp` and `wallet.cpp`: encryption of the wallet, locking and
unlocking, and keys that are derived from the wallet's chain. The cipher and its key derivation are parameters; writes to
the file succeed. Watch-only scripts and the metadata of keys are left out.
-/

namespace SchillingCoin

def WALLET_CRYPTO_KEY_SIZE : Nat := 32
def WALLET_CRYPTO_SALT_SIZE : Nat := 8

/-- AES-256-CBC, and `EVP_BytesToKey` of a passphrase, a salt and a number of rounds. -/
structure Cipher where
  encrypt : valtype → valtype → valtype → Option valtype
  decrypt : valtype → valtype → valtype → Option valtype
  bytesToKey : valtype → valtype → Nat → Option (valtype × valtype)

namespace Cipher

variable (cipher : Cipher) (nIV : uint256)

/-- `CCrypter::SetKeyFromPassphrase`: a key and an initialization vector. -/
def setKeyFromPassphrase (strKeyData chSalt : valtype) (nRounds nDerivationMethod : Nat) : Option (valtype × valtype) :=
  if nRounds < 1 ∨ chSalt.length ≠ WALLET_CRYPTO_SALT_SIZE then none
  else if nDerivationMethod = 0 then cipher.bytesToKey strKeyData chSalt nRounds
  else none

def chIV : valtype := (List.range WALLET_CRYPTO_KEY_SIZE).map fun i => UInt8.ofNat (nIV.toNat / 256 ^ i)

def encryptSecret (vMasterKey vchPlaintext : valtype) (nIV : uint256) : Option valtype :=
  if vMasterKey.length ≠ WALLET_CRYPTO_KEY_SIZE then none else cipher.encrypt vMasterKey (chIV nIV) vchPlaintext

def decryptSecret (vMasterKey vchCiphertext : valtype) (nIV : uint256) : Option valtype :=
  if vMasterKey.length ≠ WALLET_CRYPTO_KEY_SIZE then none else cipher.decrypt vMasterKey (chIV nIV) vchCiphertext

/-- The mnemonic and its passphrase are encrypted and decrypted only when there is something in them. -/
def unlessEmpty (crypt : valtype → Option valtype) (vch : valtype) : Option valtype := if vch.isEmpty then some [] else crypt vch

end Cipher

structure CMasterKey where
  vchCryptedKey : valtype
  vchSalt : valtype
  nDerivationMethod : Nat := 0
  nDeriveIterations : Nat := 25000
  deriving DecidableEq, Repr

inductive KeyThrow where
  | assertion
  | runtimeError
  /-- The search for a child never ends. -/
  | endless
  deriving DecidableEq, Repr

structure WalletKeys where
  mapKeys : StdMap CKeyID CKey := ∅
  mapCryptedKeys : StdMap CKeyID (CPubKey × valtype) := ∅
  fUseCrypto : Bool := false
  vMasterKey : valtype := []
  hdChain : CHDChain := {}
  cryptedHDChain : CHDChain := {}
  mapHdPubKeys : StdMap CKeyID CHDPubKey := ∅
  mapMasterKeys : List CMasterKey := []
  fDecryptionThoroughlyChecked : Bool := false
  fFileBacked : Bool := true

namespace WalletKeys

variable (f : KeyFunctions) (cipher : Cipher)

variable (w : WalletKeys) (vMasterKeyIn : valtype) (address : CKeyID)

def isLocked : Bool := w.fUseCrypto && w.vMasterKey.isEmpty

def setCrypted : Option WalletKeys :=
  if w.fUseCrypto then some w
  else if !w.mapKeys.keys.isEmpty then none
  else some { w with fUseCrypto := true }

def cryptMnemonic (crypt : valtype → Option valtype) (source target : CHDChain) : Option CHDChain :=
  match source.getMnemonic with
  | none => some target
  | some (vchMnemonic, vchMnemonicPassphrase) =>
    match Cipher.unlessEmpty crypt vchMnemonic, Cipher.unlessEmpty crypt vchMnemonicPassphrase with
    | some vchMnemonic, some vchMnemonicPassphrase => target.setMnemonic vchMnemonic vchMnemonicPassphrase
    | _, _ => none

def encryptHDChain (w : WalletKeys) : Option WalletKeys :=
  if !w.fUseCrypto then none
  else if !w.cryptedHDChain.isNull then some w
  else if w.cryptedHDChain.fCrypted then some w
  else if w.hdChain.id ≠ w.hdChain.getSeedHash f then none
  else
    let crypt := fun plain => cipher.encryptSecret vMasterKeyIn plain w.hdChain.id
    match crypt w.hdChain.vchSeed with
    | none => none
    | some vchCryptedSeed =>
      match { w.hdChain with fCrypted := true }.setSeed vchCryptedSeed with
      | none => none
      | some crypted =>
        match cryptMnemonic crypt w.hdChain crypted with
        | none => none
        | some crypted => some { w with cryptedHDChain := crypted, hdChain := {} }

def decryptHDChain (hdChainRet : CHDChain) : Option CHDChain :=
  if !w.fUseCrypto then some hdChainRet
  else if w.cryptedHDChain.isNull then none
  else if !w.cryptedHDChain.fCrypted then none
  else
    let crypt := fun crypted => cipher.decryptSecret w.vMasterKey crypted w.cryptedHDChain.id
    match crypt w.cryptedHDChain.vchSeed with
    | none => none
    | some vchSecureSeed =>
      match w.cryptedHDChain.setSeed vchSecureSeed with
      | none => none
      | some chain =>
        if chain.getSeedHash f ≠ w.cryptedHDChain.id then none
        else match cryptMnemonic crypt w.cryptedHDChain chain with
          | none => none
          | some chain => some { chain with fCrypted := false }

def getHDChain : Option CHDChain :=
  let chain := if w.fUseCrypto then w.cryptedHDChain else w.hdChain
  if chain.isNull then none else some chain

def isHDEnabled : Bool := w.getHDChain.isSome

def setHDChain (chain : CHDChain) (w : WalletKeys) : Option WalletKeys :=
  if w.fUseCrypto then none
  else if chain.fCrypted then none
  else some { w with hdChain := chain }

/-- `CWallet::SetCryptedHDChain`, which also writes the file. -/
def setCryptedHDChain (chain : CHDChain) (w : WalletKeys) : Option WalletKeys := do
  let w ← w.setCrypted
  if !chain.fCrypted then none
  else if !w.fFileBacked then none
  else some { w with cryptedHDChain := chain }

def getDecryptedHDChain : Option CHDChain := do
  let hdChainTmp ← w.getHDChain
  let hdChainTmp ← w.decryptHDChain f cipher hdChainTmp
  if hdChainTmp.id ≠ hdChainTmp.getSeedHash f then none else some hdChainTmp

def addCryptedKey (vchPubKey : CPubKey) (vchCryptedSecret : valtype) (w : WalletKeys) : Option WalletKeys := do
  let w ← w.setCrypted
  return { w with mapCryptedKeys := w.mapCryptedKeys.insert (f.getID vchPubKey) (vchPubKey, vchCryptedSecret) }

def addKeyPubKey (key : CKey) (pubkey : CPubKey) (w : WalletKeys) : Option WalletKeys :=
  if !w.fUseCrypto then some { w with mapKeys := w.mapKeys.insert (f.getID pubkey) key }
  else if w.isLocked then none
  else do
    let vchCryptedSecret ← cipher.encryptSecret w.vMasterKey key.bytes (f.getHash pubkey)
    w.addCryptedKey f pubkey vchCryptedSecret

/-- The key of an entry of `mapCryptedKeys` under a master key. -/
def decryptKey (vMasterKey : valtype) (entry : CPubKey × valtype) : Option CKey := do
  let vchSecret ← cipher.decryptSecret vMasterKey entry.2 (f.getHash entry.1)
  if vchSecret.length ≠ 32 then none else some (f.set vchSecret (isCompressed entry.1))

def getStoredKey : Option CKey :=
  if !w.fUseCrypto then w.mapKeys.lookup address
  else do decryptKey f cipher w.vMasterKey (← w.mapCryptedKeys.lookup address)

def getStoredPubKey : Option CPubKey :=
  if !w.fUseCrypto then (w.mapKeys.lookup address).map f.getPubKey
  else (w.mapCryptedKeys.lookup address).map Prod.fst

def haveKey : Bool :=
  (w.mapHdPubKeys.lookup address).isSome ||
    if !w.fUseCrypto then (w.mapKeys.lookup address).isSome else (w.mapCryptedKeys.lookup address).isSome

def getPubKey : Option CPubKey :=
  match w.mapHdPubKeys.lookup address with
  | some hdPubKey => some hdPubKey.extPubKey.pubkey
  | none => w.getStoredPubKey f address

def getKey : Except KeyThrow (Option CKey) :=
  match w.mapHdPubKeys.lookup address with
  | some hdPubKey =>
    match w.getHDChain with
    | none => .error .runtimeError
    | some hdChainCurrent =>
      match w.decryptHDChain f cipher hdChainCurrent with
      | none => .error .runtimeError
      | some hdChainCurrent =>
        if hdChainCurrent.id ≠ hdChainCurrent.getSeedHash f then .error .runtimeError
        else .ok (some (hdChainCurrent.deriveChildExtKey f hdPubKey.nAccountIndex (hdPubKey.nChangeIndex ≠ 0)
          hdPubKey.extPubKey.nChild).key)
  | none => .ok (w.getStoredKey f cipher address)

def addHDPubKey (extPubKey : CExtPubKey) (fInternal : Bool) (w : WalletKeys) : WalletKeys :=
  let hdPubKey : CHDPubKey :=
    { extPubKey := extPubKey
      hdchainID := (w.getHDChain.getD {}).id
      nChangeIndex := if fInternal then 1 else 0 }
  { w with mapHdPubKeys := w.mapHdPubKeys.insert (f.getID extPubKey.pubkey) hdPubKey }

/-- The loop over child indices, with a round for each of them. The second result is the index after the child. -/
def findChild (w : WalletKeys) (child : UInt32 → CExtKey) : Nat → UInt32 → Option (CExtKey × UInt32)
  | 0, _ => none
  | rounds + 1, nChildIndex =>
    if w.haveKey (f.getID (f.getPubKey (child nChildIndex).key)) then findChild w child rounds (nChildIndex + 1)
    else some (child nChildIndex, nChildIndex + 1)

def deriveNewChildKey (nAccountIndex : UInt32) (fInternal : Bool) (w : WalletKeys) : Except KeyThrow (CKey × WalletKeys) :=
  match w.getHDChain with
  | none => .error .runtimeError
  | some hdChainCurrent =>
    match w.decryptHDChain f cipher hdChainCurrent with
    | none => .error .runtimeError
    | some hdChainTmp =>
      if hdChainTmp.id ≠ hdChainTmp.getSeedHash f then .error .runtimeError
      else match hdChainTmp.getAccount nAccountIndex with
        | none => .error .runtimeError
        | some acc =>
          let counter := if fInternal then acc.nInternalChainCounter else acc.nExternalChainCounter
          match w.findChild f (hdChainTmp.deriveChildExtKey f nAccountIndex fInternal) (2 ^ 32) counter with
          | none => .error .endless
          | some (childKey, nChildIndex) =>
            let acc := if fInternal then { acc with nInternalChainCounter := nChildIndex }
              else { acc with nExternalChainCounter := nChildIndex }
            match hdChainCurrent.setAccount nAccountIndex acc with
            | none => .error .runtimeError
            | some hdChainCurrent =>
              match if w.fUseCrypto then w.setCryptedHDChain hdChainCurrent else w.setHDChain hdChainCurrent with
              | none => .error .runtimeError
              | some w => .ok (childKey.key, w.addHDPubKey f (f.neuter childKey) fInternal)

/-- `secret` is the random key of a wallet without a chain. -/
def generateNewKey (nAccountIndex : UInt32) (fInternal : Bool) (secret : CKey) (w : WalletKeys) : Except KeyThrow (CPubKey × WalletKeys) :=
  if w.isHDEnabled then do
    let (secret, w) ← w.deriveNewChildKey f cipher nAccountIndex fInternal
    return (f.getPubKey secret, w)
  else match w.addKeyPubKey f cipher secret (f.getPubKey secret) with
    | none => .error .runtimeError
    | some w => .ok (f.getPubKey secret, w)

def encryptKey (w : WalletKeys) (key : CKey) : Option WalletKeys := do
  let vchCryptedSecret ← cipher.encryptSecret vMasterKeyIn key.bytes (f.getHash (f.getPubKey key))
  w.addCryptedKey f (f.getPubKey key) vchCryptedSecret

def encryptKeys (w : WalletKeys) : Option WalletKeys :=
  if !w.mapCryptedKeys.keys.isEmpty || w.fUseCrypto then none
  else do
    let w ← (w.mapKeys.entries.map Sigma.snd).foldlM (encryptKey f cipher vMasterKeyIn) { w with fUseCrypto := true }
    return { w with mapKeys := ∅ }

def lock : WalletKeys :=
  match w.setCrypted with
  | none => w
  | some w => { w with vMasterKey := [] }

/-- The loop of `Unlock` over `mapCryptedKeys`: whether a key passed, and whether one failed. -/
def tryKeys (vMasterKeyIn : valtype) (fOne : Bool) : List (CPubKey × valtype) → Bool → Bool × Bool
  | [], keyPass => (keyPass, false)
  | entry :: rest, keyPass =>
    match decryptKey f cipher vMasterKeyIn entry with
    | none => (keyPass, true)
    | some key =>
      if f.getPubKey key ≠ entry.1 then (keyPass, true)
      else if fOne then (true, false)
      else tryKeys vMasterKeyIn fOne rest true

def unlockWith (w : WalletKeys) : Except KeyThrow (Bool × WalletKeys) :=
  match w.setCrypted with
  | none => .ok (false, w)
  | some w =>
    let (keyPass, keyFail) := tryKeys f cipher vMasterKeyIn w.fDecryptionThoroughlyChecked (w.mapCryptedKeys.entries.map Sigma.snd) false
    if keyPass && keyFail then .error .runtimeError
    else if keyFail || (!keyPass && w.cryptedHDChain.isNull) then .ok (false, w)
    else
      let w := { w with vMasterKey := vMasterKeyIn }
      let chainPass := w.cryptedHDChain.isNull ||
        (w.decryptHDChain f cipher {}).any fun hdChainTmp => w.cryptedHDChain.id == hdChainTmp.getSeedHash f
      if !chainPass then .ok (false, { w with vMasterKey := [] })
      else .ok (true, { w with fDecryptionThoroughlyChecked := true })

/-- `Unlock` with a passphrase tries one master key after the other. -/
def unlockFrom (strWalletPassphrase : valtype) : List CMasterKey → WalletKeys → Except KeyThrow (Bool × WalletKeys)
  | [], w => .ok (false, w)
  | kMasterKey :: rest, w =>
    match cipher.setKeyFromPassphrase strWalletPassphrase kMasterKey.vchSalt kMasterKey.nDeriveIterations kMasterKey.nDerivationMethod with
    | none => .ok (false, w)
    | some (chKey, chIV) =>
      match cipher.decrypt chKey chIV kMasterKey.vchCryptedKey with
      | none => unlockFrom strWalletPassphrase rest w
      | some vMasterKey =>
        match w.unlockWith f cipher vMasterKey with
        | .error e => .error e
        | .ok (true, w) => .ok (true, w)
        | .ok (false, w) => unlockFrom strWalletPassphrase rest w

def unlock (strWalletPassphrase : valtype) (w : WalletKeys) : Except KeyThrow (Bool × WalletKeys) :=
  w.unlockFrom f cipher strWalletPassphrase w.mapMasterKeys

/-- What `NewKeyPool` and `TopUpKeyPool` do to the keys: a new key for each missing one, unless the wallet is locked. -/
def fillKeyPool (draws : List (Bool × CKey)) (w : WalletKeys) : Except KeyThrow WalletKeys :=
  if w.isLocked then .ok w
  else draws.foldlM (fun w d => (w.generateNewKey f cipher 0 d.1 d.2).map Prod.snd) w

/-- The random bytes of `EncryptWallet`, the rounds that its timing asks for, and the draws of the two top-ups. -/
structure Draws where
  vMasterKey : valtype
  vchSalt : valtype
  nDeriveIterations : Nat
  first : List (Bool × CKey)
  second : List (Bool × CKey)
  masterKeySize : vMasterKey.length = WALLET_CRYPTO_KEY_SIZE
  saltSize : vchSalt.length = WALLET_CRYPTO_SALT_SIZE

/-- The part of `EncryptWallet` under the transaction of the wallet's file. -/
def encryptAll (vMasterKey : valtype) (w : WalletKeys) : Except KeyThrow WalletKeys :=
  let hdChainCurrent := w.getHDChain
  match w.encryptKeys f cipher vMasterKey with
  | none => .error .assertion
  | some w =>
    match hdChainCurrent with
    | none => .ok w
    | some hdChainCurrent =>
      match w.encryptHDChain f cipher vMasterKey with
      | none => .error .assertion
      | some w =>
        match w.getHDChain with
        | none => .error .assertion
        | some hdChainCrypted =>
          if hdChainCurrent.id ≠ hdChainCrypted.id then .error .assertion
          else if hdChainCurrent.getSeedHash f = hdChainCrypted.getSeedHash f then .error .assertion
          else match w.setCryptedHDChain hdChainCrypted with
            | none => .error .assertion
            | some w => .ok w

def encryptWallet (strWalletPassphrase : valtype) (draws : Draws) (w : WalletKeys) : Except KeyThrow (Bool × WalletKeys) :=
  if w.fUseCrypto then .ok (false, w)
  else
    let nDeriveIterations := max draws.nDeriveIterations 25000
    match cipher.setKeyFromPassphrase strWalletPassphrase draws.vchSalt nDeriveIterations 0 with
    | none => .ok (false, w)
    | some (chKey, chIV) =>
      match cipher.encrypt chKey chIV draws.vMasterKey with
      | none => .ok (false, w)
      | some vchCryptedKey => do
        let kMasterKey : CMasterKey :=
          { vchCryptedKey := vchCryptedKey, vchSalt := draws.vchSalt, nDeriveIterations := nDeriveIterations }
        let w := { w with mapMasterKeys := w.mapMasterKeys ++ [kMasterKey] }
        let w ← w.encryptAll f cipher draws.vMasterKey
        let (_, w) ← w.lock.unlock f cipher strWalletPassphrase
        let w ← w.fillKeyPool f cipher draws.first
        let w ← w.fillKeyPool f cipher draws.second
        return (true, w.lock)

end WalletKeys

end SchillingCoin
