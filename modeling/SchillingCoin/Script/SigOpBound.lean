import Mathlib.Data.List.GetD
import Mathlib.Tactic.IntervalCases
import SchillingCoin.Script.SigOps

/-!
The count of signature operations bounds the signatures the interpreter checks, and the count of a pay-to-script-hash output is
that of the script it executes.
-/

namespace SchillingCoin

namespace EvalContext

variable {ctx : EvalContext}

def checksSignatures : opcodetype → Bool
  | .OP_CHECKSIG | .OP_CHECKSIGVERIFY | .OP_CHECKMULTISIG | .OP_CHECKMULTISIGVERIFY => true
  | _ => false

theorem checkSigCalls_length (st : EvalState) : (ctx.checkSigCalls st).length ≤ 1 := by
  unfold checkSigCalls
  split
  · split <;> simp
  · simp

theorem matchSignaturesCalls_length (scriptCode : CScript) (sigs keys : List valtype) :
    (ctx.matchSignaturesCalls scriptCode sigs keys).length ≤ keys.length := by
  induction keys generalizing sigs with
  | nil => cases sigs <;> simp [matchSignaturesCalls]
  | cons vchPubKey keys ih =>
    cases sigs with
    | nil => simp [matchSignaturesCalls]
    | cons vchSig sigs =>
      simp only [matchSignaturesCalls]
      generalize (if ctx.checker.checkSig vchSig vchPubKey scriptCode = true then sigs else vchSig :: sigs) = left
      split
      · simp
      · simp only [List.length_cons, Nat.add_le_add_iff_right]
        split
        · simp
        · exact ih left

variable {n : Nat} {st : EvalState} {opcode : UInt8}

theorem scriptNum_small (low : 1 ≤ n) (high : n ≤ 16) :
    ctx.scriptNum (CScriptNum.serialize n) CScriptNum.nDefaultMaxNumSize = .ok n := by
  have read : ∀ fRequireMinimal, CScriptNum.ofVch (CScriptNum.serialize n) fRequireMinimal CScriptNum.nDefaultMaxNumSize = some (n : Int) := by
    intro fRequireMinimal
    interval_cases n <;> cases fRequireMinimal <;> decide
  simp [scriptNum, read]

theorem multiSig_ok (h : ctx.multiSig st = .ok m) :
    ∃ x, st.stack.head? = some x ∧ ∃ bn, ctx.scriptNum x CScriptNum.nDefaultMaxNumSize = .ok bn ∧
      CScriptNum.getint bn ≤ 20 ∧ m.keys.length ≤ (CScriptNum.getint bn).toNat := by
  unfold multiSig at h
  cases top : st.stack with
  | nil => simp [top] at h
  | cons x s =>
    simp only [top] at h
    obtain ⟨bn, number, h⟩ := Checked.bind_ok h
    obtain ⟨inRange, h⟩ := Checked.after_refuse h
    obtain ⟨_, h⟩ := Checked.after_refuse h
    obtain ⟨_, h⟩ := Checked.after_refuse h
    obtain ⟨sigsCount, _, h⟩ := Checked.bind_ok h
    obtain ⟨_, h⟩ := Checked.after_refuse h
    obtain ⟨_, h⟩ := Checked.after_refuse h
    obtain rfl := Except.ok.inj h
    refine ⟨x, rfl, bn, number, ?_, ?_⟩
    · simp only [decide_eq_false_iff_not, not_or, not_lt] at inRange
      exact inRange.2
    · simp [List.length_take]

theorem checkMultiSigCalls_length (st : EvalState) : (ctx.checkMultiSigCalls st).length ≤ 20 := by
  unfold checkMultiSigCalls
  split
  · simp
  · rename_i m taken
    obtain ⟨_, _, bn, _, atMost, keys⟩ := multiSig_ok taken
    have calls := ctx.matchSignaturesCalls_length m.scriptCode m.sigs m.keys
    omega

theorem checkMultiSigCalls_length_of_top (low : 1 ≤ n) (high : n ≤ 16)
    (top : st.stack.head? = some (CScriptNum.serialize n)) : (ctx.checkMultiSigCalls st).length ≤ n := by
  unfold checkMultiSigCalls
  split
  · simp
  · rename_i m taken
    obtain ⟨x, head, bn, number, _, keys⟩ := multiSig_ok taken
    obtain rfl := Option.some.inj (head.symm.trans top)
    obtain rfl := Except.ok.inj (number.symm.trans (scriptNum_small low high))
    have calls := ctx.matchSignaturesCalls_length m.scriptCode m.sigs m.keys
    have same : CScriptNum.getint n = n := by
      unfold CScriptNum.getint
      omega
    rw [same] at keys
    exact Nat.le_trans calls keys

/-- After one of `OP_1` to `OP_16` that is executed, its number is on top of the stack. -/
def NumberOnTop (lastOpcode : UInt8) (st : EvalState) : Prop :=
  OP_1 ≤ lastOpcode → lastOpcode ≤ OP_16 → st.vfExec.all id = true →
    st.stack.head? = some (CScriptNum.serialize (CScript.decodeOP_N lastOpcode : Nat))

theorem ofByte_small (low : OP_1 ≤ opcode) (high : opcode ≤ OP_16) :
    opcodetype.ofByte opcode = .OP_N (CScript.decodeOP_N opcode : Nat) := by
  have atLeast : 0x51 ≤ opcode.toNat := UInt8.le_iff_toNat_le.mp low
  have plain : ¬opcode ≤ OP_PUSHDATA4 := by
    intro push
    exact absurd (UInt8.le_trans low push) (by decide)
  have number : ((CScript.decodeOP_N opcode : Nat) : Int) = opcode.toNat - 0x50 := by
    unfold CScript.decodeOP_N
    omega
  rw [number, opcodetype.ofByte, if_neg plain, if_pos (Or.inr ⟨low, high⟩)]

theorem evalOp_numberOnTop (h : ctx.evalOp opcode data rest st = .ok st') : NumberOnTop opcode st' := by
  intro low high executed
  obtain ⟨nOpCount, dispatched⟩ := evalOp_ok h
  have plain : ¬opcode ≤ OP_PUSHDATA4 := by
    intro push
    exact absurd (UInt8.le_trans low push) (by decide)
  have outside : ¬(OP_IF ≤ opcode ∧ opcode ≤ OP_ENDIF) := by
    rintro ⟨inside, _⟩
    exact absurd (UInt8.le_trans inside high) (by decide)
  cases before : st.vfExec.all id with
  | true =>
    rw [dispatch_executed { st with nOpCount } before plain, ofByte_small low high] at dispatched
    obtain rfl := Except.ok.inj dispatched
    rfl
  | false =>
    rw [dispatch_skipped { st with nOpCount } before outside] at dispatched
    obtain rfl := Except.ok.inj dispatched
    exact absurd executed (by simp [before])

theorem checksSignatures_ofByte (checks : checksSignatures (.ofByte opcode) = true) :
    172 ≤ opcode.toNat ∧ opcode.toNat ≤ 175 := by
  have known : ∀ i < opcodetype.fromNop.length,
      checksSignatures (opcodetype.fromNop.getD i .OP_INVALIDOPCODE) = true → 75 ≤ i ∧ i ≤ 78 := by
    decide
  unfold opcodetype.ofByte at checks
  split at checks
  · cases checks
  split at checks
  · cases checks
  split at checks
  · cases checks
  split at checks
  · cases checks
  by_cases inside : opcode.toNat - 0x61 < opcodetype.fromNop.length
  · have := known _ inside checks
    omega
  · rw [List.getD_eq_default _ _ (Nat.le_of_not_lt inside)] at checks
    cases checks

theorem executeCalls_of_checks (checks : checksSignatures op = false) (st : EvalState) : ctx.executeCalls op st = [] := by
  cases op with
  | OP_CHECKSIG => cases checks
  | OP_CHECKSIGVERIFY => cases checks
  | OP_CHECKMULTISIG => cases checks
  | OP_CHECKMULTISIGVERIFY => cases checks
  | _ => rfl

theorem executeCalls_of_uncounted (sig : ¬(opcode = OP_CHECKSIG ∨ opcode = OP_CHECKSIGVERIFY))
    (multi : ¬(opcode = OP_CHECKMULTISIG ∨ opcode = OP_CHECKMULTISIGVERIFY)) (st : EvalState) :
    ctx.executeCalls (.ofByte opcode) st = [] := by
  apply executeCalls_of_checks
  by_contra checks
  have range := checksSignatures_ofByte (Bool.not_eq_false _ ▸ checks)
  have byte : ∀ b : UInt8, opcode.toNat = b.toNat → opcode = b := fun _ same => UInt8.toNat_inj.mp same
  have := mt (byte OP_CHECKSIG) (fun same => sig (Or.inl same))
  have := mt (byte OP_CHECKSIGVERIFY) (fun same => sig (Or.inr same))
  have := mt (byte OP_CHECKMULTISIG) (fun same => multi (Or.inl same))
  have := mt (byte OP_CHECKMULTISIGVERIFY) (fun same => multi (Or.inr same))
  simp only [OP_CHECKSIG, OP_CHECKSIGVERIFY, OP_CHECKMULTISIG, OP_CHECKMULTISIGVERIFY, UInt8.reduceToNat] at *
  omega

theorem evalOpCalls_length (number : NumberOnTop lastOpcode st) :
    (ctx.evalOpCalls opcode data st).length ≤ CScript.sigOps true lastOpcode opcode := by
  simp only [evalOpCalls]
  generalize (if opcode > OP_16 then st.nOpCount + 1 else st.nOpCount) = nOpCount
  split
  · exact Nat.zero_le _
  unfold dispatchCalls
  split
  · exact Nat.zero_le _
  split
  case isFalse => exact Nat.zero_le _
  rename_i looked
  unfold CScript.sigOps
  split
  · rename_i sig
    have single := ctx.checkSigCalls_length { st with nOpCount }
    rcases sig with rfl | rfl
    · exact single
    · exact single
  split
  · rename_i multi
    have executed : st.vfExec.all id = true := by
      have outside : (decide (OP_IF ≤ opcode) && decide (opcode ≤ OP_ENDIF)) = false := by
        rcases multi with rfl | rfl
        · decide
        · decide
      rwa [outside, Bool.or_false] at looked
    have calls : ctx.executeCalls (.ofByte opcode) { st with nOpCount } = ctx.checkMultiSigCalls { st with nOpCount } := by
      rcases multi with rfl | rfl
      · rfl
      · rfl
    rw [calls]
    split
    · rename_i known
      obtain ⟨_, low, high⟩ := known
      have atLeast : 0x51 ≤ lastOpcode.toNat := UInt8.le_iff_toNat_le.mp low
      have positive : 1 ≤ CScript.decodeOP_N lastOpcode := by
        unfold CScript.decodeOP_N
        omega
      have top : ({ st with nOpCount } : EvalState).stack.head? = _ := number low high executed
      exact checkMultiSigCalls_length_of_top positive (CScript.decodeOP_N_le high) top
    · exact checkMultiSigCalls_length _
  · rename_i sig multi
    rw [executeCalls_of_uncounted sig multi]
    exact Nat.le_refl _

theorem evalLoopCalls_length (number : NumberOnTop lastOpcode st) :
    (ctx.evalLoopCalls n pc st).length ≤ CScript.sigOpsFrom true n lastOpcode pc := by
  induction n generalizing lastOpcode pc st with
  | zero => exact Nat.le_refl _
  | succ n ih =>
    simp only [evalLoopCalls, CScript.sigOpsFrom]
    split
    · exact Nat.zero_le _
    · rename_i opcode data rest _
      have here : (ctx.evalOpCalls opcode data st).length ≤ _ := evalOpCalls_length number
      rw [List.length_append]
      split
      · simpa using Nat.le_trans here (Nat.le_add_right _ _)
      · rename_i st' done
        exact Nat.add_le_add here (ih (evalOp_numberOnTop done))

end EvalContext

theorem evalScriptCalls_length (crypto : Crypto) (stack : List valtype) (script : CScript) (flags : UInt32)
    (checker : BaseSignatureChecker) :
    (evalScriptCalls crypto stack script flags checker).length ≤ CScript.getSigOpCount script true := by
  unfold evalScriptCalls
  split
  · exact Nat.zero_le _
  · apply EvalContext.evalLoopCalls_length
    intro _ high
    exact absurd high (by decide)

/-- What the top of the stack is after pushes, against the data that `GetSigOpCount` keeps: the data of the last push, a small
number where the last operation has no data, or nothing at the beginning. -/
def LastPush (data : valtype) (stack : List valtype) : Prop :=
  stack.head? = some data ∨ stack = [] ∨ ∃ n : Int, -1 ≤ n ∧ n ≤ 16 ∧ n ≠ 0 ∧ stack.head? = some (CScriptNum.serialize n)

namespace EvalContext

variable {ctx : EvalContext}

theorem evalOp_push (outermost : st.vfExec = []) (push : opcode ≤ OP_16) (h : ctx.evalOp opcode data rest st = .ok st') :
    st'.vfExec = [] ∧ LastPush data st'.stack := by
  obtain ⟨nOpCount, dispatched⟩ := evalOp_ok h
  have executed : st.vfExec.all id = true := by simp [outermost]
  by_cases withData : opcode ≤ OP_PUSHDATA4
  · simp only [dispatch, executed, withData, decide_true, Bool.true_and, if_true] at dispatched
    obtain ⟨_, pushed⟩ := Checked.after_refuse dispatched
    obtain rfl := Except.ok.inj pushed
    exact ⟨outermost, Or.inl rfl⟩
  · rw [dispatch_executed { st with nOpCount } executed withData] at dispatched
    have above : 0x4e < opcode.toNat := by
      by_contra small
      exact withData (UInt8.le_iff_toNat_le.mpr (Nat.le_of_not_lt small))
    have below : opcode.toNat ≤ 0x60 := UInt8.le_iff_toNat_le.mp push
    by_cases number : opcode = OP_1NEGATE ∨ (OP_1 ≤ opcode ∧ opcode ≤ OP_16)
    · rw [opcodetype.ofByte, if_neg withData, if_pos number] at dispatched
      obtain rfl := Except.ok.inj dispatched
      refine ⟨outermost, Or.inr (Or.inr ⟨opcode.toNat - 0x50, by omega, by omega, ?_, rfl⟩)⟩
      rcases number with rfl | ⟨low, _⟩
      · decide
      · have : 0x51 ≤ opcode.toNat := UInt8.le_iff_toNat_le.mp low
        omega
    · -- what is left is `OP_RESERVED`, which no branch executes
      have reserved : opcode = 0x50 := by
        apply UInt8.toNat_inj.mp
        have : ¬0x51 ≤ opcode.toNat := fun low => number (Or.inr ⟨UInt8.le_iff_toNat_le.mpr low, push⟩)
        have : opcode.toNat ≠ 0x4f := fun same => number (Or.inl (UInt8.toNat_inj.mp same))
        show opcode.toNat = 0x50
        omega
      subst reserved
      cases dispatched

theorem evalLoop_pushes (outermost : st.vfExec = []) (last : LastPush data st.stack)
    (pushOnly : CScript.isPushOnlyFrom n pc = true) (h : ctx.evalLoop n pc st = .ok st') :
    ∃ data', CScript.lastPushed n data pc = some data' ∧ LastPush data' st'.stack := by
  induction n generalizing pc data st with
  | zero =>
    cases pc with
    | nil =>
      obtain rfl := Except.ok.inj h
      exact ⟨data, rfl, last⟩
    | cons b pc => cases pushOnly
  | succ n ih =>
    cases pc with
    | nil =>
      obtain rfl := Except.ok.inj h
      exact ⟨data, rfl, last⟩
    | cons b pc =>
      simp only [evalLoop, CScript.isPushOnlyFrom] at h pushOnly
      split at h
      · cases h
      · rename_i opcode pushed rest read
        simp only [read, Bool.and_eq_true, Bool.not_eq_true', decide_eq_false_iff_not] at pushOnly
        obtain ⟨push, pushOnly⟩ := pushOnly
        obtain ⟨mid, first, h⟩ := Checked.bind_ok h
        obtain ⟨outermost, last⟩ := evalOp_push outermost (UInt8.not_lt.mp push) first
        unfold CScript.lastPushed
        rw [read]
        simp only [if_neg push]
        exact ih outermost last pushOnly h

end EvalContext

variable {crypto : Crypto} {flags : UInt32} {checker : BaseSignatureChecker} {scriptSig : CScript}

theorem evalScript_number (low : -1 ≤ n) (high : n ≤ 16) (nonzero : n ≠ 0) :
    evalScript crypto stack (CScriptNum.serialize n) flags checker ≠ .ok stack' := by
  intro h
  interval_cases n
  all_goals first | exact absurd rfl nonzero | cases h

theorem verifyScript_p2sh (p2sh : hasFlag flags SCRIPT_VERIFY_P2SH = true)
    (output : CScript.isPayToScriptHash scriptPubKey = true)
    (h : verifyScript crypto scriptSig scriptPubKey flags checker = .ok ()) :
    CScript.isPushOnly scriptSig = true ∧
      ∃ redeemScript stackCopy stack, evalScript crypto [] scriptSig flags checker = .ok (redeemScript :: stackCopy) ∧
        evalScript crypto stackCopy redeemScript flags checker = .ok stack ∧ checkResult stack = .ok () := by
  obtain ⟨_, h⟩ := Checked.after_refuse h
  obtain ⟨stackCopy, signed, h⟩ := Checked.bind_ok h
  obtain ⟨_, _, h⟩ := Checked.bind_ok h
  obtain ⟨_, _, h⟩ := Checked.bind_ok h
  simp only [p2sh, output, Bool.and_self, if_true] at h
  obtain ⟨pushOnly, h⟩ := Checked.after_refuse h
  cases stackCopy with
  | nil => cases h
  | cons redeemScript stackCopy =>
    obtain ⟨stack, executed, result⟩ := Checked.bind_ok h
    exact ⟨by simpa using pushOnly, redeemScript, stackCopy, stack, signed, executed, result⟩

theorem evalScript_pushOnly (pushOnly : CScript.isPushOnly scriptSig = true)
    (h : evalScript crypto [] scriptSig flags checker = .ok stack) :
    ∃ data, CScript.lastPushed scriptSig.length [] scriptSig = some data ∧ LastPush data stack := by
  obtain ⟨_, h⟩ := Checked.after_refuse h
  obtain ⟨st, run, h⟩ := Checked.bind_ok h
  obtain ⟨_, h⟩ := Checked.after_refuse h
  obtain rfl := Except.ok.inj h
  exact EvalContext.evalLoop_pushes rfl (Or.inr (Or.inl rfl)) pushOnly run

theorem getSigOpCountFor_redeemScript (p2sh : hasFlag flags SCRIPT_VERIFY_P2SH = true)
    (output : CScript.isPayToScriptHash scriptPubKey = true)
    (h : verifyScript crypto scriptSig scriptPubKey flags checker = .ok ()) :
    ∃ redeemScript stackCopy stack, evalScript crypto [] scriptSig flags checker = .ok (redeemScript :: stackCopy) ∧
      evalScript crypto stackCopy redeemScript flags checker = .ok stack ∧ checkResult stack = .ok () ∧
      CScript.getSigOpCountFor scriptPubKey scriptSig = CScript.getSigOpCount redeemScript true := by
  obtain ⟨pushOnly, redeemScript, stackCopy, stack, signed, executed, result⟩ := verifyScript_p2sh p2sh output h
  obtain ⟨data, found, last⟩ := evalScript_pushOnly pushOnly signed
  refine ⟨redeemScript, stackCopy, stack, signed, executed, result, ?_⟩
  rcases last with same | empty | ⟨n, low, high, nonzero, top⟩
  · obtain rfl := Option.some.inj same
    simp [CScript.getSigOpCountFor, output, found]
  · cases empty
  · obtain rfl := Option.some.inj top
    exact absurd executed (evalScript_number low high nonzero)

namespace CScript

theorem sigOps_le (fAccurate : Bool) (lastOpcode opcode : UInt8) : sigOps fAccurate lastOpcode opcode ≤ 20 := by
  have inaccurate : sigOps false lastOpcode opcode ≤ 20 := by
    unfold sigOps
    split_ifs <;> simp_all
  cases fAccurate with
  | false => exact inaccurate
  | true => exact Nat.le_trans (sigOps_accurate_le lastOpcode opcode) inaccurate

theorem sigOpsFrom_le (fAccurate : Bool) (n : Nat) (lastOpcode : UInt8) (pc : CScript) :
    sigOpsFrom fAccurate n lastOpcode pc ≤ 20 * n := by
  induction n generalizing lastOpcode pc with
  | zero => exact Nat.le_refl _
  | succ n ih =>
    simp only [sigOpsFrom]
    split
    · omega
    · rename_i opcode _ rest _
      have here := sigOps_le fAccurate lastOpcode opcode
      have later := ih opcode rest
      omega

/-- The count does not wrap as an `unsigned int` for a script that can be read from a stream. -/
theorem getSigOpCount_lt (size : script.length ≤ MAX_SIZE) (fAccurate : Bool) : getSigOpCount script fAccurate < 2 ^ 32 := by
  have := sigOpsFrom_le fAccurate script.length OP_INVALIDOPCODE script
  unfold MAX_SIZE at size
  unfold getSigOpCount
  omega

end CScript

/-- The count bounds the calls of `CheckSig` for every script, stack, flags and checker, and the count without the number of keys
bounds it. -/
theorem sigOpCount_bounds_checkSig (crypto : Crypto) :
    (∀ (stack : List valtype) (script : CScript) (flags : UInt32) (checker : BaseSignatureChecker),
      (evalScriptCalls crypto stack script flags checker).length ≤ CScript.getSigOpCount script true) ∧
    (∀ script : CScript, CScript.getSigOpCount script true ≤ CScript.getSigOpCount script false) ∧
    ∀ (scriptSig scriptPubKey : CScript) (flags : UInt32) (checker : BaseSignatureChecker),
      hasFlag flags SCRIPT_VERIFY_P2SH = true → CScript.isPayToScriptHash scriptPubKey = true →
      verifyScript crypto scriptSig scriptPubKey flags checker = .ok () →
      ∃ redeemScript stackCopy stack, evalScript crypto [] scriptSig flags checker = .ok (redeemScript :: stackCopy) ∧
        evalScript crypto stackCopy redeemScript flags checker = .ok stack ∧ checkResult stack = .ok () ∧
        CScript.getSigOpCountFor scriptPubKey scriptSig = CScript.getSigOpCount redeemScript true := by
  refine ⟨evalScriptCalls_length crypto, fun script => CScript.sigOpsFrom_accurate_le _ _ script, ?_⟩
  intro scriptSig scriptPubKey flags checker p2sh output accepted
  exact getSigOpCountFor_redeemScript p2sh output accepted

def plainCrypto : Crypto where
  ripemd160 _ := List.replicate 20 0
  sha1 vch := vch
  sha256 vch := vch
  checkLowS _ := true
  signatureHash _ _ _ _ := 0
  verify _ _ _ := true

def trustingChecker : BaseSignatureChecker where
  checkSig _ _ _ := true
  checkLockTime _ := true
  checkColdStake _ := false

theorem evalScript_answering_checkSig :
    evalScript plainCrypto [] [0x01, 0xaa, 0x01, 0xbb, 0xac] 0 { trustingChecker with checkSig := fun vchSig _ _ => vchSig = [0xaa] } =
      evalScript plainCrypto [] [0x01, 0xaa, 0x01, 0xbb, 0xac] 0 trustingChecker := by
  apply evalScript_answering
  unfold BaseSignatureChecker.Answers
  decide

theorem oneOfOne_counted :
    verifyScript plainCrypto ([0x00, 0x01, 0xaa, 0x05] ++ [0x51, 0x01, 0xbb, 0x51, 0xae])
        ([0xa9, 0x14] ++ List.replicate 20 0 ++ [0x87]) SCRIPT_VERIFY_P2SH trustingChecker = .ok () ∧
      ∃ redeemScript stackCopy stack,
        evalScript plainCrypto [] ([0x00, 0x01, 0xaa, 0x05] ++ [0x51, 0x01, 0xbb, 0x51, 0xae]) SCRIPT_VERIFY_P2SH trustingChecker =
          .ok (redeemScript :: stackCopy) ∧
        evalScript plainCrypto stackCopy redeemScript SCRIPT_VERIFY_P2SH trustingChecker = .ok stack ∧
        checkResult stack = .ok () ∧
        CScript.getSigOpCountFor ([0xa9, 0x14] ++ List.replicate 20 0 ++ [0x87])
            ([0x00, 0x01, 0xaa, 0x05] ++ [0x51, 0x01, 0xbb, 0x51, 0xae]) =
          CScript.getSigOpCount redeemScript true :=
  ⟨rfl, (sigOpCount_bounds_checkSig plainCrypto).2.2 _ _ _ _ rfl rfl rfl⟩

end SchillingCoin
