import SchillingCoin.Wallet.Bip38
import Mathlib.Data.Nat.Bitwise

/-!
Decryption under a passphrase gives back the key that was encrypted under it.
-/

namespace SchillingCoin

open Codec Wire Base58

variable (width : Nat) (bytes : List UInt8)

def ofBytes : BitVec width := BitVec.ofNat width (leValue bytes)

theorem leValue_lt_two_pow {width : Nat} (fits : 8 * bytes.length ≤ width) : leValue bytes < 2 ^ width := by
  have small := leValue_lt bytes
  rw [show (256 : Nat) = 2 ^ 8 from rfl, ← pow_mul] at small
  exact lt_of_lt_of_le small (Nat.pow_le_pow_right (by decide) fits)

theorem toNat_ofBytes (fits : 8 * bytes.length ≤ width) : (ofBytes width bytes).toNat = leValue bytes := by
  rw [ofBytes, BitVec.toNat_ofNat, Nat.mod_eq_of_lt (leValue_lt_two_pow bytes fits)]

theorem ofBytes_append (front back : List UInt8) (fits : 8 * (front.length + back.length) ≤ width) :
    ofBytes width front ||| ofBytes width back <<< (8 * front.length) = ofBytes width (front ++ back) := by
  have frontSmall := leValue_lt_two_pow front (le_refl _)
  have whole := @leValue_lt_two_pow (front ++ back) width (by rw [List.length_append]; exact fits)
  have value := leValue_append front back
  rw [show (256 : Nat) = 2 ^ 8 from rfl, ← pow_mul] at value
  apply BitVec.eq_of_toNat_eq
  rw [BitVec.toNat_or, BitVec.toNat_shiftLeft, toNat_ofBytes width front (by omega), toNat_ofBytes width back (by omega),
    toNat_ofBytes width (front ++ back) (by rw [List.length_append]; exact fits), Nat.shiftLeft_eq, Nat.mul_comm (leValue back),
    Nat.mod_eq_of_lt (by omega), value, Nat.or_comm, Nat.mul_comm, ← Nat.shiftLeft_eq, ← Nat.shiftLeft_add_eq_or_of_lt frontSmall, Nat.add_comm]

theorem setWidth_eq_ofBytes (block : BitVec 128) {width : Nat} (wide : 128 ≤ width) : block.setWidth width = ofBytes width (leBytes 16 block.toNat) := by
  apply BitVec.eq_of_toNat_eq
  have small := block.isLt
  rw [toNat_ofBytes width _ (by rw [length_leBytes]; exact wide), leValue_leBytes, BitVec.toNat_setWidth, show (256 : Nat) ^ 16 = 2 ^ 128 from rfl,
    Nat.mod_eq_of_lt small, Nat.mod_eq_of_lt (lt_of_lt_of_le small (Nat.pow_le_pow_right (by decide) wide))]

namespace Bip38Crypto

variable (c : Bip38Crypto)

theorem number_hexStr {bytes : List UInt8} {pos len : Nat} (fits : len ≤ 32) :
    number (substr (hexStr bytes) (2 * pos) (2 * len)) = ofBytes 256 ((bytes.drop pos).take len) := by
  have hexes := (Hexes.hexStr bytes).substr pos len
  unfold number
  rw [hexes.reverseValue ((List.length_take_le _ _).trans fits)]
  rfl

variable (hashed : BitVec 512) (privKey half : uint256) (fCompressed : Bool)
  (strAddress strPassphrase strKey : List UInt8) (d1 d2 : BitVec 128)

theorem derivedHalf1_eq : derivedHalf1 hashed = hashed.setWidth 256 := by
  have low : (((leBytes 64 hashed.toNat).reverse.drop 32).take 32).reverse = leBytes 32 hashed.toNat := by
    rw [show 64 = 32 + 32 from rfl, leBytes_add, List.reverse_append, List.drop_left' (by rw [List.length_reverse, length_leBytes]),
      List.take_of_length_le (by rw [List.length_reverse, length_leBytes]), List.reverse_reverse]
  have value : setHex 32 (substr (getHex 64 hashed.toNat) 64 64) = hashed.toNat % 256 ^ 32 := by
    rw [← leValue_leBytes, ← low]
    exact ((Hexes.hexStr (leBytes 64 hashed.toNat).reverse).substr 32 32).value (List.length_take_le _ _)
  apply BitVec.eq_of_toNat_eq
  rw [derivedHalf1, value, BitVec.toNat_ofNat, BitVec.toNat_setWidth, show (256 : Nat) ^ 32 = 2 ^ 256 from rfl, Nat.mod_mod]

theorem halves_joined (x : uint256) :
    (((x >>> 128).setWidth 128).setWidth 256) <<< 128 ||| (((x <<< 128) >>> 128).setWidth 128).setWidth 256 = x := by
  apply BitVec.eq_of_getLsbD_eq
  intro i inside
  rw [BitVec.getLsbD_or, BitVec.getLsbD_shiftLeft, BitVec.getLsbD_setWidth, BitVec.getLsbD_setWidth, BitVec.getLsbD_setWidth, BitVec.getLsbD_setWidth,
    BitVec.getLsbD_ushiftRight, BitVec.getLsbD_ushiftRight, BitVec.getLsbD_shiftLeft]
  by_cases low : i < 128
  · have within : 128 + i < 256 := by omega
    have back : 128 + i - 128 = i := by omega
    have after : ¬128 + i < 128 := by omega
    simp only [low, inside, within, back, after, decide_true, decide_false, Bool.not_true, Bool.not_false, Bool.and_false, Bool.false_and,
      Bool.true_and, Bool.false_or]
  · have within : i - 128 < 128 := by omega
    have wide : i - 128 < 256 := by omega
    have back : 128 + (i - 128) = i := by omega
    simp only [low, inside, within, wide, back, decide_true, decide_false, Bool.not_false, Bool.false_and, Bool.true_and, Bool.or_false]

theorem joined_halves :
    ((((privKey >>> 128 ^^^ half >>> 128).setWidth 128).setWidth 256) <<< 128 |||
      (((privKey <<< 128 ^^^ half <<< 128) >>> 128).setWidth 128).setWidth 256) ^^^ half = privKey := by
  rw [← BitVec.ushiftRight_xor_distrib, ← BitVec.shiftLeft_xor_distrib, halves_joined, BitVec.xor_assoc, BitVec.xor_self, BitVec.xor_zero]

def Inverts : Prop := ∀ key block, c.aesDecrypt key (c.aesEncrypt key block) = block

def firstBlock : BitVec 128 :=
  c.aesEncrypt (derivedHalf2 hashed) (((privKey <<< 128 ^^^ derivedHalf1 hashed <<< 128) >>> 128).setWidth 128)

def secondBlock : BitVec 128 :=
  c.aesEncrypt (derivedHalf2 hashed) ((privKey >>> 128 ^^^ derivedHalf1 hashed >>> 128).setWidth 128)

def joined (block1 block2 : BitVec 128) : uint256 :=
  ((c.aesDecrypt (derivedHalf2 hashed) block2).setWidth 256 <<< 128 ||| (c.aesDecrypt (derivedHalf2 hashed) block1).setWidth 256) ^^^ derivedHalf1 hashed

theorem joined_blocks (inverts : c.Inverts) (hashed : BitVec 512) (privKey : uint256) :
    c.joined hashed (c.firstBlock hashed privKey) (c.secondBlock hashed privKey) = privKey := by
  unfold joined firstBlock secondBlock
  rw [inverts, inverts, joined_halves]

def flagByte : UInt8 := if fCompressed then 0xE0 else 0xC0

def addressHash : List UInt8 := (uint256Bytes (c.sha256 (uint256Bytes (c.sha256 strAddress)))).take 4

theorem addressToBip38Hash_eq : c.addressToBip38Hash strAddress = hexStr (c.addressHash strAddress) :=
  substr_hexStr (uint256Bytes (c.sha256 (uint256Bytes (c.sha256 strAddress)))) 0 4

theorem length_addressHash : (c.addressHash strAddress).length = 4 := by
  rw [addressHash, List.length_take, uint256Bytes, length_leBytes]
  rfl

def sealedBytes (privKey : uint256) (fCompressed : Bool) : List UInt8 :=
  let hashed := c.derive strPassphrase (c.addressToBip38Hash strAddress)
  [0x01, 0x42, flagByte fCompressed] ++ c.addressHash strAddress ++ leBytes 16 (c.firstBlock hashed privKey).toNat ++
    leBytes 16 (c.secondBlock hashed privKey).toNat

theorem length_sealedBytes (privKey : uint256) (fCompressed : Bool) :
    (c.sealedBytes strAddress strPassphrase privKey fCompressed).length = 39 := by
  simp [sealedBytes, length_addressHash]

theorem prefix_hexes :
    Hexes (ascii "0142" ++ if fCompressed then ascii "E0" else ascii "C0") [0x01, 0x42, flagByte fCompressed] := by
  cases fCompressed with
  | true => exact .cons (by decide) (by decide) (.cons (by decide) (by decide) (.cons (by decide) (by decide) .nil))
  | false => exact .cons (by decide) (by decide) (.cons (by decide) (by decide) (.cons (by decide) (by decide) .nil))

theorem bip38Encrypt_eq (privKey : uint256) (fCompressed : Bool) :
    ∃ checksum, checksum.length = 4 ∧ c.bip38Encrypt strAddress strPassphrase privKey fCompressed =
      encodeBase58 (c.sealedBytes strAddress strPassphrase privKey fCompressed ++ checksum) := by
  have four := c.length_addressHash strAddress
  have start : setHex 64 (reverseEndianString ((ascii "0142" ++ if fCompressed then ascii "E0" else ascii "C0") ++ c.addressToBip38Hash strAddress)) =
      leValue ([0x01, 0x42, flagByte fCompressed] ++ c.addressHash strAddress) := by
    rw [addressToBip38Hash_eq]
    apply ((prefix_hexes fCompressed).append (Hexes.hexStr _)).reverseValue
    rw [List.length_append, four]
    exact (by decide : 3 + 4 ≤ 64)
  have part1 (hashed : BitVec 512) : c.encrypted1 hashed privKey = ofBytes 512 (leBytes 16 (c.firstBlock hashed privKey).toNat) :=
    setWidth_eq_ofBytes _ (by decide)
  have part2 (hashed : BitVec 512) : c.encrypted2 hashed privKey = ofBytes 512 (leBytes 16 (c.secondBlock hashed privKey).toNat) :=
    setWidth_eq_ofBytes _ (by decide)
  have check (n : Nat) : setHex 64 (substr (getHex 32 n) (64 - 8) 8) = leValue (((leBytes 32 n).reverse.drop 28).take 4).reverse :=
    ((Hexes.hexStr (leBytes 32 n).reverse).substr 28 4).value ((List.length_take_le _ _).trans (by decide))
  have checkLength (n : Nat) : (((leBytes 32 n).reverse.drop 28).take 4).reverse.length = 4 := by simp
  have header : ([0x01, 0x42, flagByte fCompressed] ++ c.addressHash strAddress).length = 7 := by
    rw [List.length_append, four]
    rfl
  -- Every disjunction puts further bytes behind those that are there.
  have body (hashed : BitVec 512) : ofBytes 512 ([0x01, 0x42, flagByte fCompressed] ++ c.addressHash strAddress) |||
      c.encrypted1 hashed privKey <<< 56 ||| c.encrypted2 hashed privKey <<< (56 + 128) =
      ofBytes 512 ([0x01, 0x42, flagByte fCompressed] ++ c.addressHash strAddress ++ leBytes 16 (c.firstBlock hashed privKey).toNat ++
        leBytes 16 (c.secondBlock hashed privKey).toNat) := by
    rw [part1, part2]
    have first := ofBytes_append 512 ([0x01, 0x42, flagByte fCompressed] ++ c.addressHash strAddress)
      (leBytes 16 (c.firstBlock hashed privKey).toNat) (by rw [header, length_leBytes]; decide)
    have second := ofBytes_append 512
      ([0x01, 0x42, flagByte fCompressed] ++ c.addressHash strAddress ++ leBytes 16 (c.firstBlock hashed privKey).toNat)
      (leBytes 16 (c.secondBlock hashed privKey).toNat)
      (by rw [List.length_append, header, length_leBytes, length_leBytes]; decide)
    rw [header] at first
    rw [List.length_append, header, length_leBytes] at second
    rw [first, second]
  have long := c.length_sealedBytes strAddress strPassphrase privKey fCompressed
  unfold bip38Encrypt
  dsimp only
  rw [start]
  change ∃ checksum : List UInt8, checksum.length = 4 ∧ encodeBase58 (leBytes 43 (BitVec.toNat (ofBytes 512 _ ||| _ ||| _ ||| _))) = _
  rw [body]
  generalize c.hash _ = hashChecksum
  rw [check]
  have tailLength := checkLength hashChecksum.toNat
  generalize (((leBytes 32 hashChecksum.toNat).reverse.drop 28).take 4).reverse = checksum at tailLength ⊢
  refine ⟨checksum, tailLength, ?_⟩
  have whole := ofBytes_append 512 (c.sealedBytes strAddress strPassphrase privKey fCompressed) checksum (by rw [long, tailLength]; decide)
  have value := toNat_ofBytes 512 (c.sealedBytes strAddress strPassphrase privKey fCompressed ++ checksum)
    (by rw [List.length_append, long, tailLength]; decide)
  have bytes := leBytes_leValue (c.sealedBytes strAddress strPassphrase privKey fCompressed ++ checksum)
  rw [long] at whole
  rw [List.length_append, long, tailLength] at bytes
  change encodeBase58 (leBytes 43 (BitVec.toNat (ofBytes 512 (c.sealedBytes strAddress strPassphrase privKey fCompressed) |||
    ofBytes 512 checksum <<< (8 * 39)))) = _
  rw [whole, value, bytes]

theorem decodeBase58Text_encodeBase58 (bytes : List UInt8) :
    ∃ text, encodeBase58 bytes = some text ∧ decodeBase58Text text = some (hexStr bytes) := by
  obtain ⟨text, encoded, decoded, alphabet⟩ := decodeBase58_encodeBase58 bytes
  have whole : text.takeWhile (fun ch => ch ≠ 0) = text := by
    apply List.takeWhile_eq_self_iff.mpr
    intro ch member
    have nonzero : (0 : UInt8) ∉ pszBase58 := by decide
    have other : ch ≠ 0 := fun zero => nonzero (zero ▸ alphabet ch member)
    simpa using other
  refine ⟨text, encoded, ?_⟩
  unfold decodeBase58Text
  rw [whole, decoded]

theorem length_hexStr (bytes : List UInt8) : (hexStr bytes).length = 2 * bytes.length := (Hexes.hexStr bytes).length

theorem decryptPlain_eq_joined :
    c.decryptPlain strPassphrase strKey = c.joined (c.derive strPassphrase (substr strKey 6 8)) ((number (substr strKey 14 32)).setWidth 128)
      ((number (substr strKey 46 32)).setWidth 128) := rfl

theorem bip38Decrypt_plain {text strKey : List UInt8} (decoded : decodeBase58Text text = some strKey)
    (long : strKey.length = 78 + 8) (version : number (substr strKey 0 2) = 0x01) (plain : number (substr strKey 2 2) = 0x42) :
    c.bip38Decrypt strPassphrase text = .ok (c.decryptPlain strPassphrase strKey, decide (number (substr strKey 4 2) &&& 0x20 ≠ 0)) := by
  unfold bip38Decrypt
  rw [decoded]
  dsimp only
  rw [if_neg (not_not.mpr long), if_neg (not_not.mpr version), if_pos plain]

theorem substr_field {pos len : Nat} (before : front.length = pos) (size : field.length = len) :
    substr (hexStr (front ++ field ++ back)) (2 * pos) (2 * len) = hexStr field := by
  rw [substr_hexStr, List.append_assoc, ← before, List.drop_left, ← size, List.take_left]

theorem number_field {back : List UInt8} {pos len : Nat} (before : front.length = pos) (size : field.length = len)
    (fits : len ≤ 32) : number (substr (hexStr (front ++ field ++ back)) (2 * pos) (2 * len)) = ofBytes 256 field := by
  rw [number_hexStr fits, List.append_assoc, ← before, List.drop_left, ← size, List.take_left]

theorem setWidth_ofBytes_block (block : BitVec 128) : (ofBytes 256 (leBytes 16 block.toNat)).setWidth 128 = block := by
  rw [← setWidth_eq_ofBytes block (by decide), BitVec.setWidth_setWidth_of_le block (by decide), BitVec.setWidth_eq]

/-- Decryption gives back the key and the flag of every encryption under the same passphrase. -/
theorem bip38Decrypt_bip38Encrypt (inverts : c.Inverts) (strAddress strPassphrase : List UInt8) (privKey : uint256) (fCompressed : Bool) :
    ∃ text, c.bip38Encrypt strAddress strPassphrase privKey fCompressed = some text ∧
      c.bip38Decrypt strPassphrase text = .ok (privKey, fCompressed) := by
  obtain ⟨checksum, checkLength, encrypted⟩ := c.bip38Encrypt_eq strAddress strPassphrase privKey fCompressed
  obtain ⟨text, encoded, decoded⟩ := decodeBase58Text_encodeBase58 (c.sealedBytes strAddress strPassphrase privKey fCompressed ++ checksum)
  have four := c.length_addressHash strAddress
  have long := c.length_sealedBytes strAddress strPassphrase privKey fCompressed
  have version : number (substr (hexStr (c.sealedBytes strAddress strPassphrase privKey fCompressed ++ checksum)) 0 2) = 0x01 :=
    @number_hexStr _ 0 1 (by decide)
  have type : number (substr (hexStr (c.sealedBytes strAddress strPassphrase privKey fCompressed ++ checksum)) 2 2) = 0x42 :=
    @number_hexStr _ 1 1 (by decide)
  have flag : number (substr (hexStr (c.sealedBytes strAddress strPassphrase privKey fCompressed ++ checksum)) 4 2) =
      ofBytes 256 [flagByte fCompressed] := @number_hexStr _ 2 1 (by decide)
  have compressed : decide (ofBytes 256 [flagByte fCompressed] &&& 0x20 ≠ 0) = fCompressed := by
    cases fCompressed with
    | true => decide
    | false => decide
  have embedded : substr (hexStr (c.sealedBytes strAddress strPassphrase privKey fCompressed ++ checksum)) 6 8 = c.addressToBip38Hash strAddress := by
    rw [addressToBip38Hash_eq, sealedBytes, List.append_assoc, List.append_assoc]
    exact @substr_field _ _ _ 3 4 rfl four
  refine ⟨text, encrypted.trans encoded, ?_⟩
  rw [c.bip38Decrypt_plain strPassphrase decoded (by rw [length_hexStr, List.length_append, long, checkLength]) version type, flag, compressed,
    decryptPlain_eq_joined, embedded]
  have first : number (substr (hexStr (c.sealedBytes strAddress strPassphrase privKey fCompressed ++ checksum)) 14 32) =
      ofBytes 256 (leBytes 16 (c.firstBlock (c.derive strPassphrase (c.addressToBip38Hash strAddress)) privKey).toNat) := by
    rw [sealedBytes, List.append_assoc]
    exact @number_field _ _ _ 7 16 (by rw [List.length_append, four]; rfl) (length_leBytes _ _) (by decide)
  have second : number (substr (hexStr (c.sealedBytes strAddress strPassphrase privKey fCompressed ++ checksum)) 46 32) =
      ofBytes 256 (leBytes 16 (c.secondBlock (c.derive strPassphrase (c.addressToBip38Hash strAddress)) privKey).toNat) := by
    rw [sealedBytes]
    exact @number_field _ _ _ 23 16 (by rw [List.length_append, List.length_append, length_leBytes, four]; rfl) (length_leBytes _ _) (by decide)
  rw [first, second, setWidth_ofBytes_block, setWidth_ofBytes_block, c.joined_blocks inverts]

/-- Stands for the primitives in a run: the cipher leaves its block as it is, and the hash functions copy the low bytes of what they get. -/
def copying : Bip38Crypto where
  sha256 bytes := ofBytes 256 bytes
  scrypt pass _ _ _ _ dkLen := ofBytes (8 * dkLen) pass
  aesEncrypt _ block := block
  aesDecrypt _ block := block
  ecPubkeyCreate _ := none
  privkeyTweakMul _ _ := none
  address privKey _ := some (uint256Bytes privKey)

theorem copying_inverts : copying.Inverts := fun _ _ => rfl

theorem compressed_key_recovered :
    ∃ text, copying.bip38Encrypt (ascii "SXyz") (ascii "secret") 0x0123456789abcdef true = some text ∧
      copying.bip38Decrypt (ascii "secret") text = .ok (0x0123456789abcdef, true) :=
  copying.bip38Decrypt_bip38Encrypt copying_inverts (ascii "SXyz") (ascii "secret") 0x0123456789abcdef true

def Authentic (privKey : uint256) (fCompressed : Bool) : Prop :=
  ∃ address, c.address privKey fCompressed = some address ∧ c.addressToBip38Hash address = substr strKey 6 8

def Authenticates (strEncryptedKey : List UInt8) : Prop :=
  ∀ strKey privKey fCompressed, decodeBase58Text strEncryptedKey = some strKey →
    c.bip38Decrypt strPassphrase strEncryptedKey = .ok (privKey, fCompressed) → c.Authentic strKey privKey fCompressed

structure PlainFormat (strKey : List UInt8) : Prop where
  long : strKey.length = 78 + 8
  version : number (substr strKey 0 2) = 0x01
  type : number (substr strKey 2 2) = 0x42

/-- Both parts are the encryption of this key under the passphrase and the embedded hash. -/
def SealedAs (privKey : uint256) : Prop :=
  (number (substr strKey 14 32)).setWidth 128 = c.firstBlock (c.derive strPassphrase (substr strKey 6 8)) privKey ∧
    (number (substr strKey 46 32)).setWidth 128 = c.secondBlock (c.derive strPassphrase (substr strKey 6 8)) privKey

theorem Inverts.encrypt_decrypt {c : Bip38Crypto} (inverts : c.Inverts) (key : uint256) (block : BitVec 128) :
    c.aesEncrypt key (c.aesDecrypt key block) = block := by
  have finite : Finite (BitVec 128) := Finite.of_injective BitVec.toFin fun _ _ same => BitVec.eq_of_toFin_eq same
  have onto : Function.Surjective (c.aesEncrypt key) := Finite.surjective_of_injective (Function.LeftInverse.injective (inverts key))
  obtain ⟨plain, rfl⟩ := onto block
  rw [inverts]

theorem low_joined : (((d2.setWidth 256 <<< 128 ||| d1.setWidth 256) <<< 128) >>> 128).setWidth 128 = d1 := by
  apply BitVec.eq_of_getLsbD_eq
  intro i inside
  have within : 128 + i < 256 := by omega
  have back : 128 + i - 128 = i := by omega
  have after : ¬128 + i < 128 := by omega
  have wide : i < 256 := by omega
  rw [BitVec.getLsbD_setWidth, BitVec.getLsbD_ushiftRight, BitVec.getLsbD_shiftLeft, BitVec.getLsbD_or, BitVec.getLsbD_shiftLeft,
    BitVec.getLsbD_setWidth]
  simp only [inside, within, wide, back, after, decide_true, decide_false, Bool.not_true, Bool.not_false, Bool.and_false, Bool.false_and, Bool.true_and,
    Bool.false_or]
  rw [BitVec.getLsbD_setWidth, decide_eq_true wide, Bool.true_and]

theorem high_joined : ((d2.setWidth 256 <<< 128 ||| d1.setWidth 256) >>> 128).setWidth 128 = d2 := by
  apply BitVec.eq_of_getLsbD_eq
  intro i inside
  have within : 128 + i < 256 := by omega
  have back : 128 + i - 128 = i := by omega
  have after : ¬128 + i < 128 := by omega
  have wide : i < 256 := by omega
  have beyond : d1.getLsbD (128 + i) = false := BitVec.getLsbD_of_ge d1 _ (by omega)
  rw [BitVec.getLsbD_setWidth, BitVec.getLsbD_ushiftRight, BitVec.getLsbD_or, BitVec.getLsbD_shiftLeft, BitVec.getLsbD_setWidth,
    BitVec.getLsbD_setWidth, beyond]
  simp only [inside, within, wide, back, after, decide_true, decide_false, Bool.not_false, Bool.and_false, Bool.true_and, Bool.or_false]

theorem low_half (half : uint256) :
    ((((d2.setWidth 256 <<< 128 ||| d1.setWidth 256) ^^^ half) <<< 128 ^^^ half <<< 128) >>> 128).setWidth 128 = d1 := by
  rw [← BitVec.shiftLeft_xor_distrib, BitVec.xor_assoc, BitVec.xor_self, BitVec.xor_zero, low_joined]

theorem high_half (half : uint256) :
    (((d2.setWidth 256 <<< 128 ||| d1.setWidth 256) ^^^ half) >>> 128 ^^^ half >>> 128).setWidth 128 = d2 := by
  rw [← BitVec.ushiftRight_xor_distrib, BitVec.xor_assoc, BitVec.xor_self, BitVec.xor_zero, high_joined]

theorem joined_sealed (inverts : c.Inverts) (hashed : BitVec 512) (block1 block2 : BitVec 128) :
    c.firstBlock hashed (c.joined hashed block1 block2) = block1 ∧ c.secondBlock hashed (c.joined hashed block1 block2) = block2 := by
  unfold joined firstBlock secondBlock
  rw [low_half, high_half, inverts.encrypt_decrypt, inverts.encrypt_decrypt]
  exact ⟨rfl, rfl⟩

theorem decryptPlain_eq_iff (inverts : c.Inverts) (strPassphrase strKey : List UInt8) (privKey : uint256) :
    c.decryptPlain strPassphrase strKey = privKey ↔ c.SealedAs strPassphrase strKey privKey := by
  rw [decryptPlain_eq_joined]
  constructor
  · intro same
    have blocks := c.joined_sealed inverts (c.derive strPassphrase (substr strKey 6 8)) ((number (substr strKey 14 32)).setWidth 128)
      ((number (substr strKey 46 32)).setWidth 128)
    rw [same] at blocks
    exact ⟨blocks.1.symm, blocks.2.symm⟩
  · intro parts
    rw [parts.1, parts.2, c.joined_blocks inverts]

theorem decryptMultiplied_authentic {strPassphrase strKey : List UInt8} {privKey : uint256} {fCompressed : Bool}
    (accepted : c.decryptMultiplied strPassphrase strKey flag fCompressed = .ok privKey) :
    c.Authentic strKey privKey fCompressed := by
  unfold decryptMultiplied at accepted
  dsimp only at accepted
  split at accepted
  · exact nomatch accepted
  · split at accepted
    · exact nomatch accepted
    · next found =>
      split at accepted
      · exact nomatch accepted
      · next address known =>
        split at accepted
        · next same =>
          rw [← Except.ok.inj accepted]
          exact ⟨address, known, same.symm⟩
        · exact nomatch accepted

/-- Decryption authenticates what it returns exactly where a text in the plain format encrypts a key with the embedded address hash. -/
theorem authenticates_iff (inverts : c.Inverts) (strPassphrase strEncryptedKey : List UInt8) :
    c.Authenticates strPassphrase strEncryptedKey ↔
      ∀ strKey, decodeBase58Text strEncryptedKey = some strKey → PlainFormat strKey →
        ∃ privKey, c.SealedAs strPassphrase strKey privKey ∧ c.Authentic strKey privKey (decide (number (substr strKey 4 2) &&& 0x20 ≠ 0)) := by
  constructor
  · intro authenticates strKey decoded plain
    have accepted := c.bip38Decrypt_plain strPassphrase decoded plain.long plain.version plain.type
    exact ⟨_, (c.decryptPlain_eq_iff inverts strPassphrase strKey _).mp rfl, authenticates strKey _ _ decoded accepted⟩
  · intro encrypts strKey privKey fCompressed decoded accepted
    by_cases plain : PlainFormat strKey
    · obtain ⟨key, sealed, authentic⟩ := encrypts strKey decoded plain
      rw [c.bip38Decrypt_plain strPassphrase decoded plain.long plain.version plain.type,
        (c.decryptPlain_eq_iff inverts strPassphrase strKey key).mpr sealed] at accepted
      obtain ⟨rfl, rfl⟩ := Prod.mk.inj (Except.ok.inj accepted)
      exact authentic
    · unfold bip38Decrypt at accepted
      rw [decoded] at accepted
      dsimp only at accepted
      split at accepted
      · exact nomatch accepted
      · next long =>
        split at accepted
        · exact nomatch accepted
        · next version =>
          split at accepted
          · next type => exact absurd ⟨not_not.mp long, not_not.mp version, type⟩ plain
          · split at accepted
            · exact nomatch accepted
            · cases multiplied : c.decryptMultiplied strPassphrase strKey (number (substr strKey 4 2)) (decide (number (substr strKey 4 2) &&& 0x20 ≠ 0)) with
              | error e =>
                rw [multiplied] at accepted
                exact nomatch accepted
              | ok key =>
                rw [multiplied] at accepted
                obtain ⟨rfl, rfl⟩ := Prod.mk.inj (Except.ok.inj accepted)
                exact c.decryptMultiplied_authentic multiplied

def blankBytes : List UInt8 := [0x01, 0x42, 0xC0] ++ List.replicate 40 0

theorem decryptPlain_blankBytes : copying.decryptPlain strPassphrase (hexStr blankBytes) = ofBytes 256 strPassphrase := by
  have part1 : number (substr (hexStr blankBytes) 14 32) = 0 := @number_hexStr _ 7 16 (by decide)
  have part2 : number (substr (hexStr blankBytes) 46 32) = 0 := @number_hexStr _ 23 16 (by decide)
  have low : (ofBytes 512 strPassphrase).setWidth 256 = ofBytes 256 strPassphrase := by
    unfold ofBytes
    rw [BitVec.setWidth_ofNat_of_le (by omega)]
  have whole : copying.derive strPassphrase (substr (hexStr blankBytes) 6 8) = ofBytes (8 * 64) strPassphrase := rfl
  have half : derivedHalf1 (copying.derive strPassphrase (substr (hexStr blankBytes) 6 8)) = ofBytes 256 strPassphrase := by
    rw [whole, derivedHalf1_eq]
    exact low
  rw [decryptPlain_eq_joined, part1, part2, joined, half]
  show ((0 : BitVec 128).setWidth 256 <<< 128 ||| (0 : BitVec 128).setWidth 256) ^^^ _ = _
  rw [show (0 : BitVec 128).setWidth 256 <<< 128 ||| (0 : BitVec 128).setWidth 256 = 0 by decide]
  exact BitVec.zero_xor

theorem blankBytes_plain : PlainFormat (hexStr blankBytes) where
  long := by rw [length_hexStr]; decide
  version := @number_hexStr _ 0 1 (by decide)
  type := @number_hexStr _ 1 1 (by decide)

theorem empty_passphrase_authenticated : ∃ text, encodeBase58 blankBytes = some text ∧ copying.Authenticates [] text := by
  obtain ⟨text, encoded, decoded⟩ := decodeBase58Text_encodeBase58 blankBytes
  refine ⟨text, encoded, ?_⟩
  apply (copying.authenticates_iff copying_inverts [] text).mpr
  intro strKey known plain
  obtain rfl : hexStr blankBytes = strKey := Option.some.inj (decoded.symm.trans known)
  exact ⟨0, (copying.decryptPlain_eq_iff copying_inverts _ _ _).mp (decryptPlain_blankBytes []), uint256Bytes 0, rfl, by decide⟩

/-- Under another passphrase the same text is accepted with a key whose address has another hash. -/
theorem wrong_passphrase_accepted :
    ∃ text, encodeBase58 blankBytes = some text ∧ decodeBase58Text text = some (hexStr blankBytes) ∧
      copying.bip38Decrypt (ascii "a") text = .ok (97, false) ∧ ¬copying.Authentic (hexStr blankBytes) 97 false ∧
      ¬copying.Authenticates (ascii "a") text := by
  obtain ⟨text, encoded, decoded⟩ := decodeBase58Text_encodeBase58 blankBytes
  have accepted : copying.bip38Decrypt (ascii "a") text = .ok (97, false) := by
    have flag : number (substr (hexStr blankBytes) 4 2) = 0xC0 := @number_hexStr _ 2 1 (by decide)
    rw [copying.bip38Decrypt_plain (ascii "a") decoded blankBytes_plain.long blankBytes_plain.version blankBytes_plain.type, flag,
      decryptPlain_blankBytes]
    rfl
  have other : ¬copying.Authentic (hexStr blankBytes) 97 false := by
    intro authentic
    obtain ⟨address, known, same⟩ := authentic
    obtain rfl : uint256Bytes 97 = address := Option.some.inj known
    exact absurd same (by decide)
  refine ⟨text, encoded, decoded, accepted, other, ?_⟩
  intro authenticates
  exact other (authenticates _ _ _ decoded accepted)

end Bip38Crypto

end SchillingCoin
