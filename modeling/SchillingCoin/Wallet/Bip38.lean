import SchillingCoin.Primitives.Base58
import SchillingCoin.Primitives.Wire

/-!
Private keys under a passphrase, after `bip38.cpp`. SHA-256, scrypt, AES and the operations on the curve are parameters. Numbers of 256 and
512 bits are in memory with their lowest byte first, and a block of AES is the lowest 16 bytes of a number.
-/

namespace SchillingCoin

open Codec Wire Base58

structure Bip38Crypto where
  sha256 : List UInt8 → uint256
  scrypt : (pass salt : List UInt8) → (N r p dkLen : Nat) → BitVec (8 * dkLen)
  aesEncrypt : uint256 → BitVec 128 → BitVec 128
  aesDecrypt : uint256 → BitVec 128 → BitVec 128
  /-- `secp256k1_ec_pubkey_create` and the compressed serialization of its point. -/
  ecPubkeyCreate : uint256 → Option (List UInt8)
  privkeyTweakMul : uint256 → uint256 → Option uint256
  /-- The address of the public key of a private key. `none` is the failed assertion that the key is valid. -/
  address : uint256 → (fCompressed : Bool) → Option (List UInt8)

inductive Bip38Failure where
  | encoding
  | invalidPrefix
  | invalidType
  | passpoint
  | tweak
  | addressHash
  /-- A failed assertion. -/
  | assertion
  deriving DecidableEq, Repr

namespace Bip38Crypto

variable (c : Bip38Crypto)

def ascii (text : String) : List UInt8 := text.toList.map fun ch => UInt8.ofNat ch.toNat

def hash (bytes : List UInt8) : uint256 := c.sha256 (uint256Bytes (c.sha256 bytes))

def number (text : List UInt8) : uint256 := BitVec.ofNat 256 (setHex 32 (reverseEndianString text))

/-- The first bytes of the lowest 64 bits of the number, half as many as the text has characters. -/
def saltBytes (strSalt : List UInt8) : List UInt8 := leBytes (strSalt.length / 2) ((number strSalt).toNat % 2 ^ 64)

variable (hashed : BitVec 512) (strPassphrase : List UInt8) (privKey : uint256)

def derivedHalf1 : uint256 := BitVec.ofNat 256 (setHex 32 (substr (getHex 64 hashed.toNat) 64 64))

def derivedHalf2 : uint256 := BitVec.ofNat 256 (setHex 32 (substr (getHex 64 hashed.toNat) 0 64))

def decryptAES (encryptedIn decryptionKey : uint256) : uint256 := (c.aesDecrypt decryptionKey (encryptedIn.setWidth 128)).setWidth 256

def computePreFactor (strSalt : List UInt8) : uint256 := c.scrypt strPassphrase (saltBytes strSalt) 16384 8 8 32

def computePassfactor (ownersalt : List UInt8) (prefactor : uint256) : uint256 :=
  let temp : BitVec 512 := BitVec.ofNat 512 (setHex 64 (reverseEndianString (hexStr (uint256Bytes prefactor) ++ ownersalt)))
  c.sha256 (uint256Bytes (c.sha256 (leBytes 40 temp.toNat)))

def pubKeySize : List UInt8 → Nat
  | chHeader :: _ => if chHeader = 2 ∨ chHeader = 3 then 33 else if chHeader = 4 ∨ chHeader = 6 ∨ chHeader = 7 then 65 else 0
  | [] => 0

def computePasspoint (passfactor : uint256) : Option (List UInt8) :=
  match c.ecPubkeyCreate passfactor with
  | none => none
  | some passpoint => if pubKeySize passpoint ≠ passpoint.length then none else if pubKeySize passpoint = 0 then none else some passpoint

def computeSeedBPass (passpoint strAddressHash strOwnerSalt : List UInt8) : BitVec 512 :=
  let salt := reverseEndianString (strAddressHash ++ strOwnerSalt)
  let s2 := setHex 32 salt
  c.scrypt passpoint (leBytes (salt.length / 2) s2) 1024 1 1 64

def computeFactorB (seedB : uint256) : uint256 := c.sha256 (uint256Bytes (c.sha256 (leBytes 24 seedB.toNat)))

def addressToBip38Hash (address : List UInt8) : List UInt8 :=
  substr (hexStr (uint256Bytes (c.sha256 (uint256Bytes (c.sha256 address))))) 0 8

/-- What the passphrase and the address hash give, under which both halves of a key are encrypted. -/
def derive (strAddressHash : List UInt8) : BitVec 512 := c.scrypt strPassphrase (saltBytes strAddressHash) 16384 8 8 64

def encrypted1 : BitVec 512 :=
  let block1 : uint256 := (privKey <<< 128 ^^^ derivedHalf1 hashed <<< 128) >>> 128
  (c.aesEncrypt (derivedHalf2 hashed) (block1.setWidth 128)).setWidth 512

def encrypted2 : BitVec 512 :=
  let p2 := privKey >>> 128
  let dh12 := derivedHalf1 hashed >>> 128
  let block2 := p2 ^^^ dh12
  (c.aesEncrypt (derivedHalf2 hashed) (block2.setWidth 128)).setWidth 512

/-- `none` is the failed assertion of the encoding. -/
def bip38Encrypt (strAddress strPassphrase : List UInt8) (privKey : uint256) (fCompressed : Bool) : Option (List UInt8) :=
  let strAddressHash := c.addressToBip38Hash strAddress
  let hashed := c.derive strPassphrase strAddressHash
  let strPrefix := ascii "0142" ++ if fCompressed then ascii "E0" else ascii "C0"
  let encryptedKey : BitVec 512 := BitVec.ofNat 512 (setHex 64 (reverseEndianString (strPrefix ++ strAddressHash)))
  let encryptedKey := encryptedKey ||| c.encrypted1 hashed privKey <<< 56
  let encryptedKey := encryptedKey ||| c.encrypted2 hashed privKey <<< (56 + 128)
  let hashChecksum := c.hash (leBytes 39 encryptedKey.toNat)
  let b58Checksum : BitVec 512 := BitVec.ofNat 512 (setHex 64 (substr (getHex 32 hashChecksum.toNat) (64 - 8) 8))
  let encryptedKey := encryptedKey ||| b58Checksum <<< 312
  encodeBase58 (leBytes 43 encryptedKey.toNat)

/-- `DecodeBase58` to a hexadecimal text, which is empty for a text that does not decode. `none` is its failed assertion. -/
def decodeBase58Text (psz : List UInt8) : Option (List UInt8) :=
  match decodeBase58 (psz.takeWhile fun ch => ch ≠ 0) with
  | .ok vch => some (hexStr vch)
  | .error .invalid => some []
  | .error .carry => none

def decryptPlain (strKey : List UInt8) : uint256 :=
  let encryptedPart1 := number (substr strKey 14 32)
  let encryptedPart2 := number (substr strKey 46 32)
  let hashed := c.derive strPassphrase (substr strKey 6 8)
  let decryptedPart1 := c.decryptAES encryptedPart1 (derivedHalf2 hashed)
  let decryptedPart2 := c.decryptAES encryptedPart2 (derivedHalf2 hashed)
  let temp1 := decryptedPart2 <<< 128
  let temp1 := temp1 ||| decryptedPart1
  temp1 ^^^ derivedHalf1 hashed

/-- The seed from the two encrypted parts; the first is encrypted again as a part of the second. -/
def seedB (seedBPass : BitVec 512) (encryptedPart1 encryptedPart2 : uint256) : uint256 :=
  let decryptedPart2 := c.decryptAES encryptedPart2 (derivedHalf2 seedBPass)
  let x0 := derivedHalf1 seedBPass >>> 128
  let x1 := decryptedPart2 ^^^ x0
  let seedbPart2 := x1 >>> 64
  let x2 := x1 &&& 0xffffffffffffffff
  let x2 := x2 <<< 64
  let x2 := encryptedPart1 ||| x2
  let decryptedPart1 := c.decryptAES x2 (derivedHalf2 seedBPass)
  let x3 := derivedHalf1 seedBPass &&& 0xffffffffffffffffffffffffffffffff
  let seedbPart1 := decryptedPart1 ^^^ x3
  seedbPart1 ||| seedbPart2 <<< 128

/-- The EC-multiplied format, which ends in a comparison with the address hash. -/
def decryptMultiplied (strKey : List UInt8) (flag : uint256) (fCompressed : Bool) : Except Bip38Failure uint256 :=
  let strAddressHash := substr strKey 6 8
  let ownersalt := substr strKey 14 16
  let encryptedPart1 := number (substr strKey 30 16)
  let encryptedPart2 := number (substr strKey 46 32)
  let fLotSequence := flag &&& 0x04 ≠ 0
  let prefactorSalt := if fLotSequence then substr ownersalt 0 8 else ownersalt
  let prefactor := c.computePreFactor strPassphrase prefactorSalt
  let passfactor := if fLotSequence then c.computePassfactor ownersalt prefactor else prefactor
  match c.computePasspoint passfactor with
  | none => .error .passpoint
  | some passpoint =>
    let factorB := c.computeFactorB (c.seedB (c.computeSeedBPass passpoint strAddressHash ownersalt) encryptedPart1 encryptedPart2)
    match c.privkeyTweakMul factorB passfactor with
    | none => .error .tweak
    | some privKey =>
      match c.address privKey fCompressed with
      | none => .error .assertion
      | some address => if strAddressHash = c.addressToBip38Hash address then .ok privKey else .error .addressHash

def bip38Decrypt (strEncryptedKey : List UInt8) : Except Bip38Failure (uint256 × Bool) :=
  match decodeBase58Text strEncryptedKey with
  | none => .error .assertion
  | some strKey =>
    if strKey.length ≠ 78 + 8 then .error .encoding
    else if number (substr strKey 0 2) ≠ 0x01 then .error .invalidPrefix
    else
      let type := number (substr strKey 2 2)
      let flag := number (substr strKey 4 2)
      let fCompressed := decide (flag &&& 0x20 ≠ 0)
      if type = 0x42 then .ok (c.decryptPlain strPassphrase strKey, fCompressed)
      else if type ≠ 0x43 then .error .invalidType
      else (c.decryptMultiplied strPassphrase strKey flag fCompressed).map fun privKey => (privKey, fCompressed)

end Bip38Crypto

end SchillingCoin
