import SchillingCoin.Lib.StdMap
import SchillingCoin.Script.Script

/-!
Chains of keys that are derived from one seed, after `wallet/hdchain.cpp`, and the keys of `key.h` as far as the wallet
uses them. The curve, the hashes and the derivation of a child are parameters.
-/

namespace SchillingCoin

deriving instance DecidableEq for CKeyID

structure CKey where
  keydata : valtype := List.replicate 32 0
  fCompressed : Bool := false
  fValid : Bool := false
  deriving DecidableEq, Repr

namespace CKey

def bytes (key : CKey) : valtype := if key.fValid then key.keydata else []

end CKey

structure CExtKey where
  nChild : UInt32
  chaincode : uint256
  key : CKey

structure CExtPubKey where
  nChild : UInt32
  chaincode : uint256
  pubkey : CPubKey

structure KeyFunctions where
  /-- `CKey::Check`. -/
  check : valtype → Bool
  getPubKey : CKey → CPubKey
  getID : CPubKey → CKeyID
  /-- `CPubKey::GetHash`. -/
  getHash : CPubKey → uint256
  /-- `Hash` of a seed. -/
  seedHash : valtype → uint256
  /-- `CExtKey::SetMaster`. -/
  setMaster : valtype → CExtKey
  /-- `CKey::Derive`: the key and the chain code of a child. -/
  deriveKey : CExtKey → UInt32 → CKey × uint256
  extCoinType : UInt32

def isCompressed (pubkey : CPubKey) : Bool := pubkey.length == 33

namespace KeyFunctions

variable (f : KeyFunctions)

def set (data : valtype) (fCompressed : Bool) : CKey :=
  if data.length ≠ 32 then {}
  else if f.check data then { keydata := data, fCompressed := fCompressed, fValid := true }
  else {}

def derive (parent : CExtKey) (nChild : UInt32) : CExtKey :=
  { nChild := nChild, chaincode := (f.deriveKey parent nChild).2, key := (f.deriveKey parent nChild).1 }

def neuter (key : CExtKey) : CExtPubKey :=
  { nChild := key.nChild, chaincode := key.chaincode, pubkey := f.getPubKey key.key }

end KeyFunctions

structure CHDAccount where
  nExternalChainCounter : UInt32 := 0
  nInternalChainCounter : UInt32 := 0
  deriving DecidableEq, Repr

structure CHDChain where
  id : uint256 := 0
  fCrypted : Bool := false
  vchSeed : valtype := []
  vchMnemonic : valtype := []
  vchMnemonicPassphrase : valtype := []
  /-- `SetNull` leaves one blank account. -/
  mapAccounts : StdMap UInt32 CHDAccount := AList.singleton 0 {}

structure CHDPubKey where
  extPubKey : CExtPubKey
  hdchainID : uint256 := 0
  nAccountIndex : UInt32 := 0
  nChangeIndex : UInt32 := 0

def HARDENED : UInt32 := 0x80000000

namespace CHDChain

variable (chain : CHDChain) (nAccountIndex : UInt32)

def isNull : Bool := chain.vchSeed.isEmpty || chain.id == 0

/-- A setter answers whether the chain is not null then; `none` is the answer no. -/
def orNone : Option CHDChain := if chain.isNull then none else some chain

/-- `SetSeed` without a new id. -/
def setSeed (vchSeed : valtype) : Option CHDChain := orNone { chain with vchSeed := vchSeed }

/-- `SetMnemonic` without a new id. -/
def setMnemonic (vchMnemonic vchMnemonicPassphrase : valtype) : Option CHDChain :=
  orNone { chain with vchMnemonic := vchMnemonic, vchMnemonicPassphrase := vchMnemonicPassphrase }

/-- `none` when no mnemonic was set. -/
def getMnemonic : Option (valtype × valtype) :=
  if chain.vchMnemonic.isEmpty then none else some (chain.vchMnemonic, chain.vchMnemonicPassphrase)

def getSeedHash (f : KeyFunctions) (chain : CHDChain) : uint256 := f.seedHash chain.vchSeed

/-- The path m / 44' / coin_type' / account' / change / address_index. -/
def deriveChildExtKey (f : KeyFunctions) (chain : CHDChain) (nAccountIndex : UInt32) (fInternal : Bool) (nChildIndex : UInt32) :
    CExtKey :=
  let masterKey := f.setMaster chain.vchSeed
  let purposeKey := f.derive masterKey (44 ||| HARDENED)
  let cointypeKey := f.derive purposeKey (f.extCoinType ||| HARDENED)
  let accountKey := f.derive cointypeKey (nAccountIndex ||| HARDENED)
  let changeKey := f.derive accountKey (if fInternal then 1 else 0)
  f.derive changeKey nChildIndex

/-- The size of the map, less one, is computed in `size_t`; the map is never empty. -/
def getAccount : Option CHDAccount :=
  if nAccountIndex.toNat > chain.mapAccounts.keys.length - 1 then none
  else some ((chain.mapAccounts.lookup nAccountIndex).getD {})

def setAccount (hdAccount : CHDAccount) : Option CHDChain :=
  if nAccountIndex.toNat > chain.mapAccounts.keys.length - 1 then none
  else some { chain with mapAccounts := chain.mapAccounts.insert nAccountIndex hdAccount }

def addAccount : CHDChain :=
  { chain with mapAccounts := chain.mapAccounts.insertNew (UInt32.ofNat chain.mapAccounts.keys.length) {} }

end CHDChain

end SchillingCoin
