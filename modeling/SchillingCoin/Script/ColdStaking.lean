import SchillingCoin.Script.Execution

/-!
Coins delegated with `GetScriptForStakeDelegation` are spent with the key of the owner, or with the
key of the staker in a cold stake, whatever the `scriptSig` does.
-/

namespace SchillingCoin

open EvalContext

theorem pushData_key (key : CKeyID) : CScript.pushData key.bytes = 0x14 :: key.bytes := by
  simp [CScript.pushData, key.size]

theorem stakeDelegation_bytes (a b : CKeyID) :
    getScriptForStakeDelegation a b =
      0x76 :: 0xa9 :: 0x7b :: 0x63 :: 0xd1 :: 0x14 :: (a.bytes ++ 0x67 :: 0x14 :: (b.bytes ++ [0x68, 0x88, 0xac])) := by
  simp [getScriptForStakeDelegation, pushData_key]

/-- The key of the owner under a false choice, the key of the staker in a cold stake under a true one. -/
def MaySpend (crypto : Crypto) (checker : BaseSignatureChecker) (a b : CKeyID) (choice vchPubKey : valtype) : Prop :=
  castToBool choice = false ∧ crypto.hash160 vchPubKey = b.bytes ∨
    castToBool choice = true ∧ crypto.hash160 vchPubKey = a.bytes ∧ checker.checkColdStake (getScriptForStakeDelegation a b) = true

section Run

variable {crypto : Crypto} {checker : BaseSignatureChecker} {flags : UInt32} {a b : CKeyID}

def delegationContext (crypto : Crypto) (checker : BaseSignatureChecker) (flags : UInt32) (a b : CKeyID) : EvalContext :=
  { crypto, checker, flags, script := getScriptForStakeDelegation a b }

theorem run_branches (inside : st.vfExec = [chosen]) (h : (delegationContext crypto checker flags a b).evalFrom
      (0xd1 :: 0x14 :: (a.bytes ++ 0x67 :: 0x14 :: (b.bytes ++ 0x68 :: pc))) st = .ok last) :
    ∃ nOpCount key, (chosen = false ∧ key = b.bytes ∨
        chosen = true ∧ key = a.bytes ∧ checker.checkColdStake (getScriptForStakeDelegation a b) = true) ∧
      (delegationContext crypto checker flags a b).evalFrom pc
        { st with nOpCount, vfExec := [], stack := key :: st.stack } = .ok last := by
  obtain ⟨stack, altstack, vfExec, nOpCount, pbegincodehash⟩ := st
  obtain rfl : vfExec = [chosen] := inside
  have short : (0x14 : UInt8) < OP_PUSHDATA1 := by decide
  cases chosen with
  | true =>
    obtain ⟨_, coldStake, h⟩ := run_checkColdStakeVerify rfl h
    obtain ⟨_, h⟩ := run_push short a.size.symm h
    obtain ⟨_, _, _, shape, h⟩ := run_else h
    obtain ⟨rfl, rfl⟩ := List.cons.inj shape
    obtain ⟨_, h⟩ := run_push short b.size.symm h
    obtain ⟨_, _, _, shape, h⟩ := run_endif h
    obtain ⟨_, rfl⟩ := List.cons.inj shape
    exact ⟨_, a.bytes, Or.inr ⟨rfl, rfl, coldStake⟩, h⟩
  | false =>
    obtain ⟨_, h⟩ := run_skipped rfl (by decide) (by decide) h
    obtain ⟨_, h⟩ := run_push short a.size.symm h
    obtain ⟨_, _, _, shape, h⟩ := run_else h
    obtain ⟨rfl, rfl⟩ := List.cons.inj shape
    obtain ⟨_, h⟩ := run_push short b.size.symm h
    obtain ⟨_, _, _, shape, h⟩ := run_endif h
    obtain ⟨_, rfl⟩ := List.cons.inj shape
    exact ⟨_, b.bytes, Or.inl ⟨rfl, rfl⟩, h⟩

theorem run_stakeDelegation
    (h : (delegationContext crypto checker flags a b).evalFrom (getScriptForStakeDelegation a b) { stack, pbegincodehash := code } = .ok last) :
    ∃ vchSig choice vchPubKey s, stack = vchPubKey :: choice :: vchSig :: s ∧ MaySpend crypto checker a b choice vchPubKey ∧
      last.stack = boolVch (checker.checkSig vchSig vchPubKey
        (CScript.findAndDelete code (CScript.pushData vchSig))) :: s := by
  rw [stakeDelegation_bytes] at h
  obtain ⟨_, k, under, shape, h⟩ := run_dup rfl h
  obtain rfl : stack = k :: under := shape
  obtain ⟨_, _, _, hashed, h⟩ := run_hash160 rfl h
  obtain ⟨rfl, rfl⟩ := List.cons.inj hashed
  obtain ⟨_, choice, _, _, _, rotated, h⟩ := run_rot rfl h
  simp only [List.cons.injEq] at rotated
  obtain ⟨rfl, rfl, rfl⟩ := rotated
  obtain ⟨_, _, _, popped, h⟩ := run_if rfl h
  obtain ⟨rfl, rfl⟩ := List.cons.inj popped
  obtain ⟨_, key, allowed, h⟩ := run_branches rfl h
  obtain ⟨_, _, _, compared, h⟩ := run_equalVerify rfl h
  simp only [List.cons.injEq] at compared
  obtain ⟨rfl, same, rfl⟩ := compared
  obtain ⟨_, _, vchSig, s, signed, h⟩ := run_checkSig rfl h
  obtain ⟨rfl, rfl⟩ := List.cons.inj signed
  rw [evalFrom_nil] at h
  obtain rfl := Except.ok.inj h
  have spends : MaySpend crypto checker a b choice k := by
    rcases allowed with ⟨chosen, owner⟩ | ⟨chosen, staker, coldStake⟩
    · exact Or.inl ⟨chosen, same.trans owner⟩
    · exact Or.inr ⟨chosen, same.trans staker, coldStake⟩
  exact ⟨vchSig, choice, k, s, rfl, spends, rfl⟩

end Run

/-- Whatever the `scriptSig` is, an accepted one leaves a key, a choice and a signature by that key on top of its stack: the owner's key, or
the staker's in a cold stake. -/
theorem delegated_coins_spent_by_owner_or_cold_stake {crypto : Crypto} {a b : CKeyID} {txTo : CTransaction} {nIn : Nat}
    {scriptSig : CScript} {flags : UInt32}
    (h : verifyScript crypto scriptSig (getScriptForStakeDelegation a b) flags
      (transactionSignatureChecker crypto txTo nIn) = .ok ()) :
    ∃ vchSig choice k rest,
      evalScript crypto [] scriptSig flags (transactionSignatureChecker crypto txTo nIn) = .ok (k :: choice :: vchSig :: rest) ∧
      TransactionSignatureChecker.checkSig crypto txTo nIn vchSig k
        (CScript.findAndDelete (getScriptForStakeDelegation a b) (CScript.pushData vchSig)) = true ∧
      (castToBool choice = false ∧ crypto.hash160 k = b.bytes ∨
        castToBool choice = true ∧ crypto.hash160 k = a.bytes ∧ txTo.checkColdStake (getScriptForStakeDelegation a b) = true) := by
  obtain ⟨_, h⟩ := Checked.after_refuse h
  obtain ⟨stackCopy, left, h⟩ := Checked.bind_ok h
  obtain ⟨stack, evaluated, h⟩ := Checked.bind_ok h
  obtain ⟨_, result, _⟩ := Checked.bind_ok h
  obtain ⟨_, evaluated⟩ := Checked.after_refuse evaluated
  obtain ⟨last, run, evaluated⟩ := Checked.bind_ok evaluated
  obtain ⟨_, evaluated⟩ := Checked.after_refuse evaluated
  obtain rfl := Except.ok.inj evaluated
  obtain ⟨vchSig, choice, k, s, rfl, spends, top⟩ := run_stakeDelegation run
  have accepted := Checked.refuse_ok.mp result
  rw [top] at accepted
  refine ⟨vchSig, choice, k, s, left, ?_, spends⟩
  cases answer : (transactionSignatureChecker crypto txTo nIn).checkSig vchSig k
      (CScript.findAndDelete (getScriptForStakeDelegation a b) (CScript.pushData vchSig)) with
  | true => exact answer
  | false => simp [answer, boolVch, castToBool] at accepted

def ownerPubKey : valtype :=
  [0x02, 0x79, 0xbe, 0x66, 0x7e, 0xf9, 0xdc, 0xbb, 0xac, 0x55, 0xa0, 0x62, 0x95, 0xce, 0x87, 0x0b, 0x07, 0x02, 0x9b,
   0xfc, 0xdb, 0x2d, 0xce, 0x28, 0xd9, 0x59, 0xf2, 0x81, 0x5b, 0x16, 0xf8, 0x17, 0x98]

def ownerSha256 : valtype :=
  [0x0f, 0x71, 0x5b, 0xaf, 0x5d, 0x4c, 0x2e, 0xd3, 0x29, 0x78, 0x5c, 0xef, 0x29, 0xe5, 0x62, 0xf7, 0x34, 0x88, 0xc8,
   0xa2, 0xbb, 0x9d, 0xbc, 0x57, 0x00, 0xb3, 0x61, 0xd5, 0x4b, 0x9b, 0x05, 0x54]

def ownerKeyID : CKeyID where
  bytes := [0x75, 0x1e, 0x76, 0xe8, 0x19, 0x91, 0x96, 0xd4, 0x54, 0x94, 0x1c, 0x45, 0xd1, 0xb3, 0xa3, 0x23, 0xf1, 0x43,
    0x3b, 0xd6]
  size := rfl

def stakerKeyID : CKeyID where
  bytes := List.replicate 20 0x11
  size := rfl

def ownerSighash : uint256 := 0x3fa96a28c36b00f5b8eb0e1d5360e1de092c9e8b225315b5f997a0663ed05514

/-- The signature of `ownerSighash`, without the byte of its hash type. -/
def ownerSignature : valtype :=
  [0x30, 0x45, 0x02, 0x21, 0x00, 0xf9, 0x73, 0xa0, 0xb8, 0x70, 0x62, 0xc3, 0x89, 0xd1, 0x25, 0xd8, 0x19, 0x9e, 0x80,
   0x3b, 0x83, 0x2b, 0x6a, 0xc6, 0xbf, 0x78, 0x67, 0xa4, 0xf6, 0xcd, 0x87, 0x50, 0x60, 0x60, 0xfc, 0x4c, 0x58, 0x02,
   0x20, 0x4d, 0x49, 0x19, 0x1d, 0x2e, 0x75, 0xd7, 0x70, 0xed, 0x3d, 0x4f, 0xaa, 0xbe, 0x5f, 0xfd, 0x88, 0xde, 0x7b,
   0x19, 0x05, 0x57, 0xe8, 0x6f, 0xd3, 0xcc, 0x4b, 0xe6, 0x15, 0x91, 0xb3, 0x24, 0xa7]

def ownerCrypto : Crypto where
  ripemd160 vch := if vch = ownerSha256 then ownerKeyID.bytes else []
  sha1 _ := []
  sha256 vch := if vch = ownerPubKey then ownerSha256 else []
  checkLowS vch := vch == ownerSignature
  signatureHash scriptCode _ nIn nHashType :=
    if scriptCode = getScriptForStakeDelegation stakerKeyID ownerKeyID ∧ nIn = 0 ∧ nHashType = 1 then ownerSighash else 1
  verify pubkey sighash vchSig := pubkey == ownerPubKey && sighash == ownerSighash && vchSig == ownerSignature

def ownerScriptSig : CScript :=
  CScript.pushData (ownerSignature ++ [0x01]) ++ CScript.pushData [] ++ CScript.pushData ownerPubKey

def ownerTx : CTransaction :=
  { hash := 8
    vin := [{ prevout := ⟨7, 0⟩, scriptSig := ownerScriptSig }]
    vout := [⟨500000000, [0x76, 0xa9, 0x14] ++ ownerKeyID.bytes ++ [0x88, 0xac], -10⟩] }

theorem owner_spends_delegated_coins :
    ∃ vchSig choice k rest,
      evalScript ownerCrypto [] ownerScriptSig 0x7f (transactionSignatureChecker ownerCrypto ownerTx 0) =
        .ok (k :: choice :: vchSig :: rest) ∧
      TransactionSignatureChecker.checkSig ownerCrypto ownerTx 0 vchSig k
        (CScript.findAndDelete (getScriptForStakeDelegation stakerKeyID ownerKeyID) (CScript.pushData vchSig)) = true ∧
      (castToBool choice = false ∧ ownerCrypto.hash160 k = ownerKeyID.bytes ∨
        castToBool choice = true ∧ ownerCrypto.hash160 k = stakerKeyID.bytes ∧
        ownerTx.checkColdStake (getScriptForStakeDelegation stakerKeyID ownerKeyID) = true) := by
  have accepted : verifyScript ownerCrypto ownerScriptSig (getScriptForStakeDelegation stakerKeyID ownerKeyID) 0x7f
      (transactionSignatureChecker ownerCrypto ownerTx 0) = .ok () := by decide
  exact delegated_coins_spent_by_owner_or_cold_stake accepted

end SchillingCoin
