import SchillingCoin.Primitives.VarInt

/-!
Outputs in the form of the coins database, after `compressor.h` and `compressor.cpp`: amounts without their trailing zeros, and the usual
scripts as one byte and a hash or a key. Public keys are parsed by a parameter.
-/

namespace SchillingCoin

open Codec DataStream

/-- Divides by ten at most `e` times while it leaves no rest, and counts. -/
def stripTens : (e : Nat) → Nat → Nat × Nat
  | 0, n => (n, 0)
  | e + 1, n => if n % 10 = 0 then ((stripTens e (n / 10)).1, (stripTens e (n / 10)).2 + 1) else (n, 0)

def compressAmount (n : Nat) : Nat :=
  if n = 0 then 0
  else
    let m := (stripTens 9 n).1
    let e := (stripTens 9 n).2
    if e < 9 then (1 + (m / 10 * 9 + m % 10 - 1) * 10 + e) % 2 ^ 64 else (1 + (m - 1) * 10 + 9) % 2 ^ 64

def decompressAmount (x : Nat) : Nat :=
  if x = 0 then 0
  else
    let e := (x - 1) % 10
    let x := (x - 1) / 10
    let n := if e < 9 then x / 9 * 10 + (x % 9 + 1) else x + 1
    n * 10 ^ e % 2 ^ 64

theorem stripTens_spec (e n : Nat) : (stripTens e n).2 ≤ e ∧ n = (stripTens e n).1 * 10 ^ (stripTens e n).2 ∧
    ((stripTens e n).2 < e → (stripTens e n).1 % 10 ≠ 0) := by
  induction e generalizing n with
  | zero => simp [stripTens]
  | succ e ih =>
    unfold stripTens
    split
    · next zero =>
      obtain ⟨few, value, last⟩ := ih (n / 10)
      refine ⟨by dsimp only; omega, ?_, fun more => last (by dsimp only at more; omega)⟩
      have tens : n = n / 10 * 10 := by omega
      dsimp only
      rw [Nat.pow_succ, ← Nat.mul_assoc, ← value]
      exact tens
    · next other => exact ⟨Nat.zero_le _, by simp, fun _ => other⟩

theorem decompressAmount_compressAmount (small : n < 2 ^ 60) : decompressAmount (compressAmount n) = n := by
  unfold compressAmount
  split
  · next zero => simp [zero, decompressAmount]
  next positive =>
  obtain ⟨few, value, last⟩ := stripTens_spec 9 n
  generalize (stripTens 9 n).1 = m at *
  generalize (stripTens 9 n).2 = e at *
  have power : 0 < 10 ^ e := Nat.pow_pos (by omega)
  have below : m ≤ n := by
    rw [value]
    exact Nat.le_mul_of_pos_right m power
  have some_ : 0 < m := by
    rcases Nat.eq_zero_or_pos m with none_ | some_
    · rw [none_] at value
      omega
    · exact some_
  dsimp only
  split
  · next short =>
    have digit := last short
    rw [Nat.mod_eq_of_lt (by omega), decompressAmount, if_neg (by omega)]
    have exponent : (1 + (m / 10 * 9 + m % 10 - 1) * 10 + e - 1) % 10 = e := by omega
    have rest : (1 + (m / 10 * 9 + m % 10 - 1) * 10 + e - 1) / 10 = m / 10 * 9 + m % 10 - 1 := by omega
    have number : (m / 10 * 9 + m % 10 - 1) / 9 * 10 + ((m / 10 * 9 + m % 10 - 1) % 9 + 1) = m := by omega
    dsimp only
    rw [exponent, rest, if_pos short, number, ← value]
    exact Nat.mod_eq_of_lt (by omega)
  · next long =>
    have nine : e = 9 := by omega
    rw [Nat.mod_eq_of_lt (by omega), decompressAmount, if_neg (by omega)]
    have exponent : (1 + (m - 1) * 10 + 9 - 1) % 10 = 9 := by omega
    have rest : (1 + (m - 1) * 10 + 9 - 1) / 10 + 1 = m := by omega
    dsimp only
    rw [exponent, if_neg (by omega), rest, ← nine, ← value]
    exact Nat.mod_eq_of_lt (by omega)

def nSpecialScripts : Nat := 6

structure PubKeys where
  isFullyValid : List UInt8 → Bool
  decompress : List UInt8 → Option (List UInt8)

/-- The first byte is even or odd like the last byte of the uncompressed key. -/
def compressedKey (pubkey : List UInt8) : List UInt8 :=
  UInt8.ofNat (2 + (pubkey.getD 64 0).toNat % 2) :: (pubkey.drop 1).take 32

def PubKeys.Inverts (keys : PubKeys) : Prop :=
  ∀ pubkey : List UInt8, pubkey.length = 65 → pubkey.head? = some 4 → keys.isFullyValid pubkey = true →
    keys.decompress (compressedKey pubkey) = some pubkey

namespace CScriptCompressor

def between (front : List UInt8) (size : Nat) (back : List UInt8) (script : CScript) : Option (List UInt8) :=
  if script.length = front.length + size + back.length ∧ script.take front.length = front ∧
    script.drop (front.length + size) = back then some ((script.drop front.length).take size)
  else none

-- OP_DUP OP_HASH160 and OP_EQUALVERIFY OP_CHECKSIG
def isToKeyID : CScript → Option (List UInt8) := between [0x76, 0xa9, 20] 20 [0x88, 0xac]

-- OP_HASH160 and OP_EQUAL
def isToScriptID : CScript → Option (List UInt8) := between [0xa9, 20] 20 [0x87]

def isToPubKey (keys : PubKeys) (script : CScript) : Option (List UInt8) :=
  match (between [33] 33 [0xac] script).filter fun pubkey => pubkey.head? == some 2 || pubkey.head? == some 3 with
  | some pubkey => some pubkey
  | none => (between [65] 65 [0xac] script).filter fun pubkey => pubkey.head? == some 4 && keys.isFullyValid pubkey

def compressKey (pubkey : List UInt8) : Option (List UInt8) :=
  if pubkey.head? = some 2 ∨ pubkey.head? = some 3 then some (pubkey.take 33)
  else if pubkey.head? = some 4 then some (UInt8.ofNat (4 + (pubkey.getD 64 0).toNat % 2) :: (pubkey.drop 1).take 32)
  else none

def compress (keys : PubKeys) (script : CScript) : Option (List UInt8) :=
  match isToKeyID script, isToScriptID script, isToPubKey keys script with
  | some keyID, _, _ => some (0 :: keyID)
  | none, some scriptID, _ => some (1 :: scriptID)
  | none, none, some pubkey => compressKey pubkey
  | none, none, none => none

def getSpecialSize (nSize : Nat) : Nat :=
  if nSize = 0 ∨ nSize = 1 then 20 else if nSize = 2 ∨ nSize = 3 ∨ nSize = 4 ∨ nSize = 5 then 32 else 0

/-- `none` leaves the script as it was. -/
def decompress (keys : PubKeys) (nSize : Nat) (vch : List UInt8) : Option CScript :=
  match nSize with
  | 0 => some ([0x76, 0xa9, 20] ++ vch ++ [0x88, 0xac])
  | 1 => some ([0xa9, 20] ++ vch ++ [0x87])
  | 2 | 3 => some ([33, UInt8.ofNat nSize] ++ vch ++ [0xac])
  | 4 | 5 => (keys.decompress (UInt8.ofNat (nSize - 2) :: vch)).map fun pubkey => [65] ++ pubkey ++ [0xac]
  | _ => none

def serialize (keys : PubKeys) (script : CScript) : Writes :=
  match compress keys script with
  | some compr => [compr]
  | none => writeVarInt (((script.length + nSpecialScripts) % 2 ^ 32 : Nat) : Int) ++ [script]

def unserializeAfter (keys : PubKeys) (nSize : Nat) : StreamReader CScript :=
  if nSize < nSpecialScripts then do
    let vch ← read (getSpecialSize nSize)
    return (decompress keys nSize vch).getD []
  else if nSize - nSpecialScripts > MAX_SCRIPT_SIZE then do
    -- an overly long script becomes a short invalid one
    let _ ← read (nSize - nSpecialScripts)
    return [OP_RETURN]
  else read (nSize - nSpecialScripts)

def unserialize (keys : PubKeys) : StreamReader CScript := do
  let nSize ← readVarInt (2 ^ 32)
  unserializeAfter keys nSize

/-! A special script is read back from its first byte and the bytes after it. -/

structure Special (keys : PubKeys) (script : CScript) (nSize : Nat) (vch : List UInt8) : Prop where
  special : nSize < nSpecialScripts
  size : vch.length = getSpecialSize nSize
  back : decompress keys nSize vch = some script

theorem between_some (found : between front size back script = some mid) :
    script = front ++ mid ++ back ∧ mid.length = size := by
  unfold between at found
  split at found
  · next shape =>
    obtain ⟨length, first, last⟩ := shape
    cases found
    constructor
    · have tail : (script.drop front.length).drop size = back := by rw [List.drop_drop, last]
      calc script = script.take front.length ++ script.drop front.length := (List.take_append_drop _ _).symm
        _ = front ++ ((script.drop front.length).take size ++ (script.drop front.length).drop size) := by
          rw [first, List.take_append_drop]
        _ = front ++ (script.drop front.length).take size ++ back := by rw [tail, List.append_assoc]
    · rw [List.length_take, List.length_drop]
      omega
  · cases found

variable {keys : PubKeys} {script : CScript} {pubkey : List UInt8}

theorem special_keyID (found : isToKeyID script = some keyID) : Special keys script 0 keyID :=
  ⟨by decide, (between_some found).2, congrArg some (between_some found).1.symm⟩

theorem special_scriptID (found : isToScriptID script = some scriptID) : Special keys script 1 scriptID :=
  ⟨by decide, (between_some found).2, congrArg some (between_some found).1.symm⟩

theorem cons_of_head (head : pubkey.head? = some first) : ∃ rest, pubkey = first :: rest := by
  cases pubkey with
  | nil => cases head
  | cons b rest =>
    cases head
    exact ⟨rest, rfl⟩

theorem special_compressed (size : pubkey.length = 33) (head : pubkey.head? = some first) (short : first = 2 ∨ first = 3) :
    ∃ vch, compressKey pubkey = some (UInt8.ofNat first.toNat :: vch) ∧
      Special keys ([33] ++ pubkey ++ [0xac]) first.toNat vch := by
  obtain ⟨rest, rfl⟩ := cons_of_head head
  have others : rest.length = 32 := by simpa using size
  refine ⟨rest, ?_, ?_⟩
  · rw [compressKey, if_pos (by rcases short with rfl | rfl <;> simp), List.take_of_length_le (by omega), UInt8.ofNat_toNat]
  · rcases short with rfl | rfl
    all_goals exact ⟨by decide, others, rfl⟩

theorem special_uncompressed (inverts : keys.Inverts) (size : pubkey.length = 65)
    (head : pubkey.head? = some 4) (valid : keys.isFullyValid pubkey = true) :
    ∃ nSize vch, compressKey pubkey = some (UInt8.ofNat nSize :: vch) ∧ Special keys ([65] ++ pubkey ++ [0xac]) nSize vch := by
  have key := inverts pubkey size head valid
  unfold compressedKey at key
  refine ⟨4 + (pubkey.getD 64 0).toNat % 2, (pubkey.drop 1).take 32, ?_, ?_⟩
  · rw [compressKey, if_neg (by rw [head]; decide), if_pos head]
  · have bit : (pubkey.getD 64 0).toNat % 2 = 0 ∨ (pubkey.getD 64 0).toNat % 2 = 1 := by omega
    have half : ((pubkey.drop 1).take 32).length = 32 := by
      rw [List.length_take, List.length_drop, size]
      rfl
    rcases bit with even | odd
    · rw [even] at key ⊢
      exact ⟨by decide, half, congrArg (Option.map fun pubkey => [65] ++ pubkey ++ [0xac]) key⟩
    · rw [odd] at key ⊢
      exact ⟨by decide, half, congrArg (Option.map fun pubkey => [65] ++ pubkey ++ [0xac]) key⟩

theorem special_pubKey (inverts : keys.Inverts) (found : isToPubKey keys script = some pubkey) :
    ∃ nSize vch, compressKey pubkey = some (UInt8.ofNat nSize :: vch) ∧ Special keys script nSize vch := by
  unfold isToPubKey at found
  split at found
  · next pubkey' short =>
    cases found
    obtain ⟨found, tagged⟩ := Option.filter_eq_some_iff.mp short
    obtain ⟨whole, size⟩ := between_some found
    simp only [Bool.or_eq_true, beq_iff_eq] at tagged
    rcases tagged with two | three
    · obtain ⟨vch, compressed, special⟩ := special_compressed size two (Or.inl rfl)
      exact ⟨_, vch, compressed, whole ▸ special⟩
    · obtain ⟨vch, compressed, special⟩ := special_compressed size three (Or.inr rfl)
      exact ⟨_, vch, compressed, whole ▸ special⟩
  · obtain ⟨found, tagged⟩ := Option.filter_eq_some_iff.mp found
    obtain ⟨whole, size⟩ := between_some found
    simp only [Bool.and_eq_true, beq_iff_eq] at tagged
    obtain ⟨nSize, vch, compressed, special⟩ := special_uncompressed inverts size tagged.1 tagged.2
    exact ⟨nSize, vch, compressed, whole ▸ special⟩

theorem compress_special (inverts : keys.Inverts) (compressed : compress keys script = some compr) :
    ∃ nSize vch, compr = UInt8.ofNat nSize :: vch ∧ Special keys script nSize vch := by
  unfold compress at compressed
  cases key : isToKeyID script with
  | some keyID =>
    rw [key] at compressed
    cases compressed
    exact ⟨0, keyID, rfl, special_keyID key⟩
  | none =>
    cases other : isToScriptID script with
    | some scriptID =>
      rw [key, other] at compressed
      cases compressed
      exact ⟨1, scriptID, rfl, special_scriptID other⟩
    | none =>
      cases found : isToPubKey keys script with
      | some pubkey =>
        obtain ⟨nSize, vch, short, special⟩ := special_pubKey inverts found
        rw [key, other, found] at compressed
        exact ⟨nSize, vch, (Option.some.inj (short.symm.trans compressed)).symm, special⟩
      | none =>
        rw [key, other, found] at compressed
        cases compressed

theorem Special.reads (special : Special keys script nSize vch) :
    Reads (unserialize keys) script (UInt8.ofNat nSize :: vch) := by
  have small : nSize < 6 := special.special
  have header : (writeVarInt nSize).bytes = [UInt8.ofNat nSize] := by
    rw [writeVarInt_bytes, varIntBytes, if_pos (by omega)]
    rfl
  have after : Reads (unserializeAfter keys nSize) script vch := by
    unfold unserializeAfter
    have back : (decompress keys nSize vch).getD [] = script := by rw [special.back, Option.getD_some]
    rw [if_pos special.special, ← special.size, ← back]
    exact (read_reads vch).bind_pure
  have whole := (@readVarInt_reads nSize (2 ^ 32) (by omega)).bind after
  rwa [header] at whole

theorem unserialize_reads (inverts : keys.Inverts) (short : script.length ≤ MAX_SCRIPT_SIZE) :
    Reads (unserialize keys) script (serialize keys script).bytes := by
  have limit : script.length ≤ 10000 := short
  unfold serialize
  cases compressed : compress keys script with
  | some compr =>
    obtain ⟨nSize, vch, rfl, special⟩ := compress_special inverts compressed
    have bytes : Writes.bytes [UInt8.ofNat nSize :: vch] = UInt8.ofNat nSize :: vch := by
      rw [Writes.bytes_cons, Writes.bytes_nil, List.append_nil]
    dsimp only
    rw [bytes]
    exact special.reads
  | none =>
    have size : (script.length + nSpecialScripts) % 2 ^ 32 = script.length + 6 := Nat.mod_eq_of_lt (by simp only [nSpecialScripts]; omega)
    have after : Reads (unserializeAfter keys (script.length + 6)) script script := by
      unfold unserializeAfter
      simp only [nSpecialScripts, MAX_SCRIPT_SIZE, Nat.add_sub_cancel]
      rw [if_neg (by omega), if_neg (by omega)]
      exact read_reads script
    dsimp only
    rw [size, Writes.bytes_append, Writes.bytes_cons, Writes.bytes_nil, List.append_nil]
    exact (readVarInt_reads (by omega)).bind after

end CScriptCompressor

namespace CTxOutCompressor

def serialize (keys : PubKeys) (txout : CTxOut) : Writes :=
  writeVarInt (compressAmount (txout.nValue % 2 ^ 64).toNat : Nat) ++ CScriptCompressor.serialize keys txout.scriptPubKey

/-- `nRounds` is not stored. -/
def unserialize (keys : PubKeys) : StreamReader CTxOut := do
  let nVal ← readVarInt (2 ^ 64)
  let scriptPubKey ← CScriptCompressor.unserialize keys
  return { nValue := (decompressAmount nVal : Int).bmod (2 ^ 64), scriptPubKey }

theorem compressAmount_lt (n : Nat) : compressAmount n < 2 ^ 64 := by
  unfold compressAmount
  dsimp only
  split
  · omega
  · split
    all_goals exact Nat.mod_lt _ (by omega)

theorem unserialize_reads (inverts : keys.Inverts) (nonneg : 0 ≤ txout.nValue) (small : txout.nValue < 2 ^ 60)
    (short : txout.scriptPubKey.length ≤ MAX_SCRIPT_SIZE) :
    Reads (unserialize keys) { txout with nRounds := -10 } (serialize keys txout).bytes := by
  have stored : (txout.nValue % 2 ^ 64).toNat = txout.nValue.toNat := by omega
  have value : (decompressAmount (compressAmount txout.nValue.toNat) : Int).bmod (2 ^ 64) = txout.nValue := by
    rw [decompressAmount_compressAmount (by omega), Int.toNat_of_nonneg nonneg]
    exact Int.bmod_eq_of_le (by omega) (by omega)
  have read : ({ txout with nRounds := -10 } : CTxOut) =
      { nValue := (decompressAmount (compressAmount txout.nValue.toNat) : Int).bmod (2 ^ 64), scriptPubKey := txout.scriptPubKey } := by
    rw [value]
  rw [serialize, stored, Writes.bytes_append, read]
  exact (readVarInt_reads (compressAmount_lt _)).bind (CScriptCompressor.unserialize_reads inverts short).bind_pure

end CTxOutCompressor

end SchillingCoin
