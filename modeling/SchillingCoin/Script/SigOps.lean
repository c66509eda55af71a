import SchillingCoin.Primitives.Serialize
import SchillingCoin.Script.Execution

/-!
The number of signature operations of a script, after `GetSigOpCount` in `script.cpp`, and the signatures that the interpreter
asks its checker for.
-/

namespace SchillingCoin

def OP_CHECKSIG : UInt8 := 0xac
def OP_CHECKSIGVERIFY : UInt8 := 0xad
def OP_CHECKMULTISIG : UInt8 := 0xae
def OP_CHECKMULTISIGVERIFY : UInt8 := 0xaf
def OP_INVALIDOPCODE : UInt8 := 0xff

namespace CScript

def decodeOP_N (opcode : UInt8) : Nat := opcode.toNat - 0x50

def sigOps (fAccurate : Bool) (lastOpcode opcode : UInt8) : Nat :=
  if opcode = OP_CHECKSIG ∨ opcode = OP_CHECKSIGVERIFY then 1
  else if opcode = OP_CHECKMULTISIG ∨ opcode = OP_CHECKMULTISIGVERIFY then
    if fAccurate ∧ OP_1 ≤ lastOpcode ∧ lastOpcode ≤ OP_16 then decodeOP_N lastOpcode else 20
  else 0

/-- The loop of `GetSigOpCount`. It reads a byte at least in every pass. -/
def sigOpsFrom (fAccurate : Bool) : Nat → UInt8 → CScript → Nat
  | 0, _, _ => 0
  | n + 1, lastOpcode, pc =>
    match getOp pc with
    | none => 0
    | some (opcode, _, rest) => sigOps fAccurate lastOpcode opcode + sigOpsFrom fAccurate n opcode rest

/-- The count is an `unsigned int`, which a script of at most `MAX_SIZE` bytes does not overflow. -/
def getSigOpCount (script : CScript) (fAccurate : Bool) : Nat := sigOpsFrom fAccurate script.length OP_INVALIDOPCODE script

/-- The data of the last operation of a `scriptSig`; `none` where it is not read to its end as a list of pushes. -/
def lastPushed : Nat → valtype → CScript → Option valtype
  | _, data, [] => some data
  | 0, _, _ => none
  | n + 1, _, pc =>
    match getOp pc with
    | none => none
    | some (opcode, data, rest) => if opcode > OP_16 then none else lastPushed n data rest

/-- `GetSigOpCount` of a `scriptPubKey` with the `scriptSig` that spends it. -/
def getSigOpCountFor (scriptPubKey scriptSig : CScript) : Nat :=
  if !isPayToScriptHash scriptPubKey then getSigOpCount scriptPubKey true
  else match lastPushed scriptSig.length [] scriptSig with
    | none => 0
    | some data => getSigOpCount data true

theorem decodeOP_N_le (high : opcode ≤ OP_16) : decodeOP_N opcode ≤ 16 := by
  have high : opcode.toNat ≤ 0x60 := UInt8.le_iff_toNat_le.mp high
  unfold decodeOP_N
  omega

theorem sigOps_accurate_le (lastOpcode opcode : UInt8) : sigOps true lastOpcode opcode ≤ sigOps false lastOpcode opcode := by
  unfold sigOps
  split
  · exact Nat.le_refl _
  split
  · split
    · rename_i known
      have := decodeOP_N_le known.2.2
      simp only [Bool.false_eq_true, false_and, if_false]
      omega
    · simp
  · exact Nat.le_refl _

theorem sigOpsFrom_accurate_le (n : Nat) (lastOpcode : UInt8) (pc : CScript) :
    sigOpsFrom true n lastOpcode pc ≤ sigOpsFrom false n lastOpcode pc := by
  induction n generalizing lastOpcode pc with
  | zero => exact Nat.le_refl _
  | succ n ih =>
    simp only [sigOpsFrom]
    split
    · exact Nat.le_refl _
    · exact Nat.add_le_add (sigOps_accurate_le _ _) (ih _ _)

end CScript

structure CheckSigCall where
  vchSig : valtype
  vchPubKey : valtype
  scriptCode : CScript
  deriving DecidableEq, Repr

namespace EvalContext

variable (ctx : EvalContext)

def checkEncodings (vchSig vchPubKey : valtype) : Except ScriptError Unit := do
  checkSignatureEncoding ctx.crypto vchSig ctx.flags
  checkPubKeyEncoding vchPubKey ctx.flags

def checkSigCalls (st : EvalState) : List CheckSigCall :=
  match st.stack with
  | vchPubKey :: vchSig :: _ =>
    match ctx.checkEncodings vchSig vchPubKey with
    | .error _ => []
    | .ok () => [⟨vchSig, vchPubKey, CScript.findAndDelete st.pbegincodehash (CScript.pushData vchSig)⟩]
  | _ => []

def matchSignaturesCalls (scriptCode : CScript) : List valtype → List valtype → List CheckSigCall
  | [], _ => []
  | _ :: _, [] => []
  | vchSig :: sigs, vchPubKey :: keys =>
    match ctx.checkEncodings vchSig vchPubKey with
    | .error _ => []
    | .ok () =>
      let left := if ctx.checker.checkSig vchSig vchPubKey scriptCode then sigs else vchSig :: sigs
      ⟨vchSig, vchPubKey, scriptCode⟩ :: if left.length > keys.length then [] else matchSignaturesCalls scriptCode left keys

/-- What `OP_CHECKMULTISIG` takes from the stack before its loop: the keys, the signatures and the script they sign. -/
structure MultiSig where
  keys : List valtype
  sigs : List valtype
  scriptCode : CScript

def multiSig (st : EvalState) : Except ScriptError MultiSig :=
  match st.stack with
  | [] => .error .INVALID_STACK_OPERATION
  | x :: _ => do
    let nKeysCount := CScriptNum.getint (← ctx.scriptNum x CScriptNum.nDefaultMaxNumSize)
    Checked.refuse (decide (nKeysCount < 0 ∨ nKeysCount > 20)) .PUBKEY_COUNT
    let nKeys := nKeysCount.toNat
    Checked.refuse (decide (st.nOpCount + nKeys > 201)) .OP_COUNT
    Checked.refuse (decide (st.stack.length < nKeys + 2)) .INVALID_STACK_OPERATION
    let nSigsCount := CScriptNum.getint (← ctx.scriptNum (st.stack.getD (nKeys + 1) []) CScriptNum.nDefaultMaxNumSize)
    Checked.refuse (decide (nSigsCount < 0 ∨ nSigsCount > nKeysCount)) .SIG_COUNT
    let nSigs := nSigsCount.toNat
    Checked.refuse (decide (st.stack.length < nKeys + nSigs + 3)) .INVALID_STACK_OPERATION
    let sigs := (st.stack.drop (nKeys + 2)).take nSigs
    return {
      keys := (st.stack.drop 1).take nKeys
      sigs
      scriptCode := sigs.foldl (fun code vchSig => CScript.findAndDelete code (CScript.pushData vchSig)) st.pbegincodehash }

def checkMultiSigCalls (st : EvalState) : List CheckSigCall :=
  match ctx.multiSig st with
  | .error _ => []
  | .ok m => ctx.matchSignaturesCalls m.scriptCode m.sigs m.keys

def executeCalls (opcode : opcodetype) (st : EvalState) : List CheckSigCall :=
  match opcode with
  | .OP_CHECKSIG | .OP_CHECKSIGVERIFY => ctx.checkSigCalls st
  | .OP_CHECKMULTISIG | .OP_CHECKMULTISIGVERIFY => ctx.checkMultiSigCalls st
  | _ => []

def dispatchCalls (opcode : UInt8) (st : EvalState) : List CheckSigCall :=
  if st.vfExec.all id && decide (opcode ≤ OP_PUSHDATA4) then []
  else if st.vfExec.all id || (decide (OP_IF ≤ opcode) && decide (opcode ≤ OP_ENDIF)) then ctx.executeCalls (.ofByte opcode) st
  else []

/-- Nothing is executed where the operation is refused before. -/
def evalOpCalls (opcode : UInt8) (vchPushValue : valtype) (st : EvalState) : List CheckSigCall :=
  let nOpCount := if opcode > OP_16 then st.nOpCount + 1 else st.nOpCount
  if vchPushValue.length > MAX_SCRIPT_ELEMENT_SIZE ∨ (opcode > OP_16 ∧ nOpCount > 201) ∨ (opcodetype.ofByte opcode).isDisabled then []
  else ctx.dispatchCalls opcode { st with nOpCount }

def evalLoopCalls : Nat → CScript → EvalState → List CheckSigCall
  | 0, _, _ => []
  | n + 1, pc, st =>
    match CScript.getOp pc with
    | none => []
    | some (opcode, vchPushValue, rest) =>
      ctx.evalOpCalls opcode vchPushValue st ++
        match ctx.evalOp opcode vchPushValue rest st with
        | .error _ => []
        | .ok st => evalLoopCalls n rest st

end EvalContext

/-- The calls of `CheckSig` in an evaluation, whether it succeeds or not. -/
def evalScriptCalls (crypto : Crypto) (stack : List valtype) (script : CScript) (flags : UInt32) (checker : BaseSignatureChecker) :
    List CheckSigCall :=
  if script.length > MAX_SCRIPT_SIZE then []
  else ({ crypto, checker, flags, script } : EvalContext).evalLoopCalls script.length script { stack, pbegincodehash := script }

def BaseSignatureChecker.Answers (checker : BaseSignatureChecker) (answer : valtype → valtype → CScript → Bool)
    (calls : List CheckSigCall) : Prop :=
  ∀ call ∈ calls, answer call.vchSig call.vchPubKey call.scriptCode = checker.checkSig call.vchSig call.vchPubKey call.scriptCode

namespace EvalContext

variable {ctx : EvalContext} {answer : valtype → valtype → CScript → Bool}

def answering (ctx : EvalContext) (answer : valtype → valtype → CScript → Bool) : EvalContext :=
  { ctx with checker := { ctx.checker with checkSig := answer } }

variable {st : EvalState} {rest : CScript}

theorem checkSig_answering (same : ctx.checker.Answers answer (ctx.checkSigCalls st)) :
    (ctx.answering answer).checkSig st = ctx.checkSig st := by
  unfold checkSigCalls checkEncodings at same
  unfold checkSig
  split
  · rename_i vchPubKey vchSig stack shape
    apply Checked.bind_congr
    intro _ (sigEncoding : checkSignatureEncoding ctx.crypto vchSig ctx.flags = _)
    apply Checked.bind_congr
    intro _ (keyEncoding : checkPubKeyEncoding vchPubKey ctx.flags = _)
    simp only [shape, sigEncoding, keyEncoding, Checked.ok_bind] at same
    simp only [answering, same _ List.mem_cons_self]
  · rfl

theorem matchSignatures_answering (same : ctx.checker.Answers answer (ctx.matchSignaturesCalls scriptCode sigs keys)) :
    (ctx.answering answer).matchSignatures scriptCode sigs keys = ctx.matchSignatures scriptCode sigs keys := by
  induction keys generalizing sigs with
  | nil => cases sigs <;> rfl
  | cons vchPubKey keys ih =>
    cases sigs with
    | nil => rfl
    | cons vchSig sigs =>
      unfold matchSignaturesCalls checkEncodings at same
      unfold matchSignatures
      apply Checked.bind_congr
      intro _ (sigEncoding : checkSignatureEncoding ctx.crypto vchSig ctx.flags = _)
      apply Checked.bind_congr
      intro _ (keyEncoding : checkPubKeyEncoding vchPubKey ctx.flags = _)
      simp only [sigEncoding, keyEncoding, Checked.ok_bind] at same
      have answered : answer vchSig vchPubKey scriptCode = ctx.checker.checkSig vchSig vchPubKey scriptCode :=
        same _ List.mem_cons_self
      have later := fun call mem => same call (List.mem_cons_of_mem _ mem)
      simp only [answering, answered]
      generalize (if ctx.checker.checkSig vchSig vchPubKey scriptCode = true then sigs else vchSig :: sigs) = left at later ⊢
      by_cases more : left.length > keys.length
      · simp only [if_pos more]
      · simp only [if_neg more] at later ⊢
        exact ih later

theorem checkMultiSig_answering (same : ctx.checker.Answers answer (ctx.checkMultiSigCalls st)) :
    (ctx.answering answer).checkMultiSig st = ctx.checkMultiSig st := by
  unfold checkMultiSigCalls multiSig at same
  unfold checkMultiSig
  split
  · rfl
  · rename_i x s shape
    apply Checked.bind_congr
    intro _ (keysCount : ctx.scriptNum x CScriptNum.nDefaultMaxNumSize = _)
    apply Checked.bind_congr
    intro _ keysInRange
    apply Checked.bind_congr
    intro _ opCount
    apply Checked.bind_congr
    intro _ keysThere
    apply Checked.bind_congr
    intro _ (sigsCount : ctx.scriptNum _ CScriptNum.nDefaultMaxNumSize = _)
    apply Checked.bind_congr
    intro _ sigsInRange
    apply Checked.bind_congr
    intro _ sigsThere
    simp only [shape] at same keysThere sigsCount sigsThere
    simp only [keysCount, keysInRange, opCount, keysThere, sigsCount, sigsInRange, sigsThere, Checked.ok_bind, pure, Except.pure] at same
    simp only [shape]
    rw [matchSignatures_answering same]
    rfl

theorem execute_answering (same : ctx.checker.Answers answer (ctx.executeCalls op st)) :
    (ctx.answering answer).execute op fExec rest st = ctx.execute op fExec rest st := by
  cases op with
  | OP_CHECKSIG => exact checkSig_answering same
  | OP_CHECKSIGVERIFY => exact congrArg (· >>= popVerified .CHECKSIGVERIFY) (checkSig_answering same)
  | OP_CHECKMULTISIG => exact checkMultiSig_answering same
  | OP_CHECKMULTISIGVERIFY => exact congrArg (· >>= popVerified .CHECKMULTISIGVERIFY) (checkMultiSig_answering same)
  | _ => rfl

theorem dispatch_answering (same : ctx.checker.Answers answer (ctx.dispatchCalls opcode st)) :
    (ctx.answering answer).dispatch opcode data rest st = ctx.dispatch opcode data rest st := by
  unfold dispatchCalls at same
  simp only [dispatch]
  split
  · rfl
  · rename_i plain
    rw [if_neg plain] at same
    split
    · rename_i looked
      rw [if_pos looked] at same
      exact execute_answering same
    · rfl

theorem evalOp_answering (same : ctx.checker.Answers answer (ctx.evalOpCalls opcode data st)) :
    (ctx.answering answer).evalOp opcode data rest st = ctx.evalOp opcode data rest st := by
  unfold evalOp
  apply Checked.bind_congr
  intro _ small
  apply Checked.bind_congr
  intro _ few
  apply Checked.bind_congr
  intro _ enabled
  have small := Checked.refuse_ok.mp small
  have few := Checked.refuse_ok.mp few
  have enabled := Checked.refuse_ok.mp enabled
  simp only [evalOpCalls] at same
  rw [if_neg (by simp_all)] at same
  rw [dispatch_answering same]

theorem evalLoop_answering (same : ctx.checker.Answers answer (ctx.evalLoopCalls n pc st)) :
    (ctx.answering answer).evalLoop n pc st = ctx.evalLoop n pc st := by
  induction n generalizing pc st with
  | zero => cases pc <;> rfl
  | succ n ih =>
    cases pc with
    | nil => rfl
    | cons b pc =>
      simp only [evalLoop]
      simp only [evalLoopCalls] at same
      cases read : CScript.getOp (b :: pc) with
      | none => rfl
      | some op =>
        obtain ⟨opcode, data, rest⟩ := op
        simp only [read] at same ⊢
        rw [evalOp_answering fun call mem => same call (List.mem_append_left _ mem)]
        apply Checked.bind_congr
        intro mid first
        apply ih
        intro call mem
        exact same call (List.mem_append_right _ (by simpa only [first] using mem))

end EvalContext

/-- What a checker answers to calls that `EvalScript` does not make has no effect on its result. -/
theorem evalScript_answering {crypto : Crypto} {stack : List valtype} {script : CScript} {flags : UInt32}
    {checker : BaseSignatureChecker} {answer : valtype → valtype → CScript → Bool}
    (same : checker.Answers answer (evalScriptCalls crypto stack script flags checker)) :
    evalScript crypto stack script flags { checker with checkSig := answer } = evalScript crypto stack script flags checker := by
  unfold evalScript
  apply Checked.bind_congr
  intro _ small
  have small := Checked.refuse_ok.mp small
  unfold evalScriptCalls at same
  rw [if_neg (by simpa using small)] at same
  have run := EvalContext.evalLoop_answering same
  simp only [EvalContext.evalFrom]
  rw [← run]
  rfl

end SchillingCoin
