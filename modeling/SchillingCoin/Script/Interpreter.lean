import SchillingCoin.Lib.Checked
import SchillingCoin.Script.Script

/-!
The script interpreter, after `EvalScript`, `VerifyScript` and `TransactionSignatureChecker` in
`interpreter.cpp`. Stacks are lists with the top first, so `stacktop(-1)` is the head. Hash functions,
signature hashes and the verification of a signature are parameters.
-/

namespace SchillingCoin

open Checked (refuse)
open opcodetype

inductive ScriptError where
  | UNKNOWN_ERROR | EVAL_FALSE | OP_RETURN
  | SCRIPT_SIZE | PUSH_SIZE | OP_COUNT | STACK_SIZE | SIG_COUNT | PUBKEY_COUNT
  | VERIFY | EQUALVERIFY | CHECKCOLDSTAKEVERIFY | CHECKMULTISIGVERIFY | CHECKSIGVERIFY | NUMEQUALVERIFY
  | BAD_OPCODE | DISABLED_OPCODE | INVALID_STACK_OPERATION | INVALID_ALTSTACK_OPERATION | UNBALANCED_CONDITIONAL
  | NEGATIVE_LOCKTIME | UNSATISFIED_LOCKTIME
  | SIG_HASHTYPE | SIG_DER | MINIMALDATA | SIG_PUSHONLY | SIG_HIGH_S | SIG_NULLDUMMY | PUBKEYTYPE
  | DISCOURAGE_UPGRADABLE_NOPS
  deriving DecidableEq, Repr

def SCRIPT_VERIFY_P2SH : UInt32 := 0x1
def SCRIPT_VERIFY_STRICTENC : UInt32 := 0x2
def SCRIPT_VERIFY_DERSIG : UInt32 := 0x4
def SCRIPT_VERIFY_LOW_S : UInt32 := 0x8
def SCRIPT_VERIFY_NULLDUMMY : UInt32 := 0x10
def SCRIPT_VERIFY_SIGPUSHONLY : UInt32 := 0x20
def SCRIPT_VERIFY_MINIMALDATA : UInt32 := 0x40
def SCRIPT_VERIFY_DISCOURAGE_UPGRADABLE_NOPS : UInt32 := 0x80
def SCRIPT_VERIFY_CHECKLOCKTIMEVERIFY : UInt32 := 0x200

variable (flags : UInt32) (crypto : Crypto) (vchSig : valtype)

def hasFlag (bits : UInt32) : Bool := flags &&& bits != 0

structure Crypto where
  ripemd160 : valtype → valtype
  sha1 : valtype → valtype
  sha256 : valtype → valtype
  /-- `CPubKey::CheckLowS`. -/
  checkLowS : valtype → Bool
  signatureHash : CScript → CTransaction → (nIn : Nat) → (nHashType : UInt8) → uint256
  /-- `CPubKey::Verify` of a valid key. -/
  verify : (pubkey : valtype) → (sighash : uint256) → (vchSig : valtype) → Bool

namespace Crypto

def hash160 (c : Crypto) (vch : valtype) : valtype := c.ripemd160 (c.sha256 vch)

def hash256 (c : Crypto) (vch : valtype) : valtype := c.sha256 (c.sha256 vch)

end Crypto

structure BaseSignatureChecker where
  checkSig : (vchSig vchPubKey : valtype) → (scriptCode : CScript) → Bool
  checkLockTime : Int → Bool
  checkColdStake : CScript → Bool

def castToBool : valtype → Bool
  | [] => false
  | [b] => b != 0 && b != 0x80
  | b :: rest => b != 0 || castToBool rest

def boolVch (b : Bool) : valtype := if b then [1] else []

def isCompressedOrUncompressedPubKey (vchPubKey : valtype) : Bool :=
  match vchPubKey.head? with
  | none => false
  | some header =>
    !decide (vchPubKey.length < 33) &&
      if header = 0x04 then vchPubKey.length == 65
      else (header == 0x02 || header == 0x03) && vchPubKey.length == 33

def isValidSignatureEncoding (sig : valtype) : Bool :=
  let lenR := (sig.getD 3 0).toNat
  let lenS := (sig.getD (5 + lenR) 0).toNat
  !decide (sig.length < 9) && !decide (sig.length > 73) &&
  sig.getD 0 0 == 0x30 && (sig.getD 1 0).toNat == sig.length - 3 &&
  decide (5 + lenR < sig.length) && lenR + lenS + 7 == sig.length &&
  sig.getD 2 0 == 0x02 && lenR != 0 && sig.getD 4 0 &&& 0x80 == 0 &&
  !(decide (lenR > 1) && sig.getD 4 0 == 0x00 && sig.getD 5 0 &&& 0x80 == 0) &&
  sig.getD (lenR + 4) 0 == 0x02 && lenS != 0 && sig.getD (lenR + 6) 0 &&& 0x80 == 0 &&
  !(decide (lenS > 1) && sig.getD (lenR + 6) 0 == 0x00 && sig.getD (lenR + 7) 0 &&& 0x80 == 0)

def isLowDERSignature : Except ScriptError Unit := do
  refuse (!isValidSignatureEncoding vchSig) .SIG_DER
  refuse (!crypto.checkLowS vchSig.dropLast) .SIG_HIGH_S

def isDefinedHashtypeSignature : Bool :=
  match vchSig.getLast? with
  | none => false
  | some last =>
    let nHashType := last &&& 0x7f
    !(decide (nHashType < 1) || decide (nHashType > 3))

/-- An empty signature is allowed: it is a compact way to give an invalid one. -/
def checkSignatureEncoding (flags : UInt32) : Except ScriptError Unit :=
  if vchSig.isEmpty then .ok ()
  else do
    refuse (hasFlag flags (SCRIPT_VERIFY_DERSIG ||| SCRIPT_VERIFY_LOW_S ||| SCRIPT_VERIFY_STRICTENC) &&
      !isValidSignatureEncoding vchSig) .SIG_DER
    if hasFlag flags SCRIPT_VERIFY_LOW_S then isLowDERSignature crypto vchSig
    refuse (hasFlag flags SCRIPT_VERIFY_STRICTENC && !isDefinedHashtypeSignature vchSig) .SIG_HASHTYPE

def checkPubKeyEncoding (vchPubKey : valtype) (flags : UInt32) : Except ScriptError Unit :=
  refuse (hasFlag flags SCRIPT_VERIFY_STRICTENC && !isCompressedOrUncompressedPubKey vchPubKey) .PUBKEYTYPE

def checkMinimalPush (data : valtype) (opcode : UInt8) : Bool :=
  match data with
  | [] => opcode == 0
  | [b] =>
    if 1 ≤ b ∧ b ≤ 16 then opcode == OP_1 + (b - 1)
    else if b = 0x81 then opcode == OP_1NEGATE
    else opcode == 1
  | _ =>
    if data.length ≤ 75 then opcode.toNat == data.length
    else if data.length ≤ 255 then opcode == OP_PUSHDATA1
    else if data.length ≤ 65535 then opcode == OP_PUSHDATA2
    else true

structure EvalContext where
  crypto : Crypto
  checker : BaseSignatureChecker
  flags : UInt32
  script : CScript

structure EvalState where
  stack : List valtype
  altstack : List valtype := []
  /-- The conditionals around the current operation, the innermost first. -/
  vfExec : List Bool := []
  nOpCount : Nat := 0
  pbegincodehash : CScript
  deriving DecidableEq, Repr

namespace EvalState

/-- An operation on the stack alone. `none` is a stack that is too small. -/
def onStack (st : EvalState) (f : List valtype → Option (List valtype)) : Except ScriptError EvalState :=
  match f st.stack with
  | none => .error .INVALID_STACK_OPERATION
  | some stack => .ok { st with stack }

end EvalState

namespace EvalContext

variable (ctx : EvalContext)

def fRequireMinimal : Bool := hasFlag ctx.flags SCRIPT_VERIFY_MINIMALDATA

def scriptNum (vch : valtype) (nMaxNumSize : Nat) : Except ScriptError Int :=
  match CScriptNum.ofVch vch ctx.fRequireMinimal nMaxNumSize with
  | none => .error .UNKNOWN_ERROR
  | some n => .ok n

def unaryNum (f : Int → Int) (st : EvalState) : Except ScriptError EvalState :=
  match st.stack with
  | x :: stack => do
    let bn ← ctx.scriptNum x CScriptNum.nDefaultMaxNumSize
    return { st with stack := CScriptNum.serialize (f bn) :: stack }
  | _ => .error .INVALID_STACK_OPERATION

def binaryNum (f : Int → Int → Int) (st : EvalState) : Except ScriptError EvalState :=
  match st.stack with
  | x2 :: x1 :: stack => do
    let bn1 ← ctx.scriptNum x1 CScriptNum.nDefaultMaxNumSize
    let bn2 ← ctx.scriptNum x2 CScriptNum.nDefaultMaxNumSize
    return { st with stack := CScriptNum.serialize (f bn1 bn2) :: stack }
  | _ => .error .INVALID_STACK_OPERATION

def boolNum (b : Bool) : Int := if b then 1 else 0

variable (st : EvalState)

def within : Except ScriptError EvalState :=
  match st.stack with
  | x3 :: x2 :: x1 :: stack => do
    let bn1 ← ctx.scriptNum x1 CScriptNum.nDefaultMaxNumSize
    let bn2 ← ctx.scriptNum x2 CScriptNum.nDefaultMaxNumSize
    let bn3 ← ctx.scriptNum x3 CScriptNum.nDefaultMaxNumSize
    return { st with stack := boolVch (decide (bn2 ≤ bn1 ∧ bn1 < bn3)) :: stack }
  | _ => .error .INVALID_STACK_OPERATION

/-- The operations that end in `VERIFY` pop a true result and fail on a false one. -/
def popVerified (e : ScriptError) (st : EvalState) : Except ScriptError EvalState :=
  match st.stack with
  | x :: stack => if castToBool x then .ok { st with stack } else .error e
  | [] => .error e

def hash (f : valtype → valtype) (st : EvalState) : Except ScriptError EvalState :=
  st.onStack fun
    | x :: s => some (f x :: s)
    | _ => none

def pickRoll (roll : Bool) (st : EvalState) : Except ScriptError EvalState :=
  match st.stack with
  | x :: y :: s => do
    let n := CScriptNum.getint (← ctx.scriptNum x CScriptNum.nDefaultMaxNumSize)
    let stack := y :: s
    if n < 0 ∨ n ≥ stack.length then .error .INVALID_STACK_OPERATION
    else
      let vch := stack.getD n.toNat []
      .ok { st with stack := vch :: if roll then stack.eraseIdx n.toNat else stack }
  | _ => .error .INVALID_STACK_OPERATION

def checkLockTimeVerify : Except ScriptError EvalState :=
  if !hasFlag ctx.flags SCRIPT_VERIFY_CHECKLOCKTIMEVERIFY then do
    refuse (hasFlag ctx.flags SCRIPT_VERIFY_DISCOURAGE_UPGRADABLE_NOPS) .DISCOURAGE_UPGRADABLE_NOPS
    return st
  else match st.stack with
    | [] => .error .INVALID_STACK_OPERATION
    | x :: _ => do
      let nLockTime ← ctx.scriptNum x 5
      refuse (decide (nLockTime < 0)) .NEGATIVE_LOCKTIME
      refuse (!ctx.checker.checkLockTime nLockTime) .UNSATISFIED_LOCKTIME
      return st

/-- A conditional that is not executed is entered with `false` and reads no stack. -/
def conditional (negated fExec : Bool) (st : EvalState) : Except ScriptError EvalState :=
  if !fExec then .ok { st with vfExec := false :: st.vfExec }
  else match st.stack with
    | [] => .error .UNBALANCED_CONDITIONAL
    | x :: stack => .ok { st with stack, vfExec := (castToBool x ^^ negated) :: st.vfExec }

def checkSig (st : EvalState) : Except ScriptError EvalState :=
  match st.stack with
  | vchPubKey :: vchSig :: stack => do
    let scriptCode := CScript.findAndDelete st.pbegincodehash (CScript.pushData vchSig)
    checkSignatureEncoding ctx.crypto vchSig ctx.flags
    checkPubKeyEncoding vchPubKey ctx.flags
    return { st with stack := boolVch (ctx.checker.checkSig vchSig vchPubKey scriptCode) :: stack }
  | _ => .error .INVALID_STACK_OPERATION

/-- The loop of `OP_CHECKMULTISIG`: every key is tried once, and the loop stops early when more
signatures than keys are left. -/
def matchSignatures (scriptCode : CScript) : List valtype → List valtype → Except ScriptError Bool
  | [], _ => .ok true
  | _ :: _, [] => .ok false
  | vchSig :: sigs, vchPubKey :: keys => do
    checkSignatureEncoding ctx.crypto vchSig ctx.flags
    checkPubKeyEncoding vchPubKey ctx.flags
    let left := if ctx.checker.checkSig vchSig vchPubKey scriptCode then sigs else vchSig :: sigs
    if left.length > keys.length then .ok false else matchSignatures scriptCode left keys

def checkMultiSig : Except ScriptError EvalState :=
  match st.stack with
  | [] => .error .INVALID_STACK_OPERATION
  | x :: _ => do
    let nKeysCount := CScriptNum.getint (← ctx.scriptNum x CScriptNum.nDefaultMaxNumSize)
    refuse (decide (nKeysCount < 0 ∨ nKeysCount > 20)) .PUBKEY_COUNT
    let nKeys := nKeysCount.toNat
    let nOpCount := st.nOpCount + nKeys
    refuse (decide (nOpCount > 201)) .OP_COUNT
    refuse (decide (st.stack.length < nKeys + 2)) .INVALID_STACK_OPERATION
    let nSigsCount := CScriptNum.getint (← ctx.scriptNum (st.stack.getD (nKeys + 1) []) CScriptNum.nDefaultMaxNumSize)
    refuse (decide (nSigsCount < 0 ∨ nSigsCount > nKeysCount)) .SIG_COUNT
    let nSigs := nSigsCount.toNat
    refuse (decide (st.stack.length < nKeys + nSigs + 3)) .INVALID_STACK_OPERATION
    let keys := (st.stack.drop 1).take nKeys
    let sigs := (st.stack.drop (nKeys + 2)).take nSigs
    let scriptCode := sigs.foldl (fun code vchSig => CScript.findAndDelete code (CScript.pushData vchSig)) st.pbegincodehash
    let fSuccess ← ctx.matchSignatures scriptCode sigs keys
    match st.stack.drop (nKeys + nSigs + 2) with
    | [] => .error .INVALID_STACK_OPERATION
    | dummy :: stack => do
      refuse (hasFlag ctx.flags SCRIPT_VERIFY_NULLDUMMY && !dummy.isEmpty) .SIG_NULLDUMMY
      return { st with nOpCount, stack := boolVch fSuccess :: stack }

/-- The `switch` of `EvalScript`. `rest` is the script after the operation. -/
def execute (opcode : opcodetype) (fExec : Bool) (rest : CScript) (st : EvalState) : Except ScriptError EvalState :=
  match opcode with
  | .OP_N n => .ok { st with stack := CScriptNum.serialize n :: st.stack }
  | .OP_NOP => .ok st
  | .OP_CHECKLOCKTIMEVERIFY => ctx.checkLockTimeVerify st
  | .OP_NOP1 | .OP_NOP3 | .OP_NOP4 | .OP_NOP5 | .OP_NOP6 | .OP_NOP7 | .OP_NOP8 | .OP_NOP9 | .OP_NOP10 => do
    refuse (hasFlag ctx.flags SCRIPT_VERIFY_DISCOURAGE_UPGRADABLE_NOPS) .DISCOURAGE_UPGRADABLE_NOPS
    return st
  | .OP_IF => conditional false fExec st
  | .OP_NOTIF => conditional true fExec st
  | .OP_ELSE => match st.vfExec with
    | [] => .error .UNBALANCED_CONDITIONAL
    | b :: outer => .ok { st with vfExec := (!b) :: outer }
  | .OP_ENDIF => match st.vfExec with
    | [] => .error .UNBALANCED_CONDITIONAL
    | _ :: outer => .ok { st with vfExec := outer }
  | .OP_VERIFY => if st.stack.isEmpty then .error .INVALID_STACK_OPERATION else popVerified .VERIFY st
  | .OP_RETURN => .error .OP_RETURN
  | .OP_TOALTSTACK => match st.stack with
    | [] => .error .INVALID_STACK_OPERATION
    | x :: stack => .ok { st with stack, altstack := x :: st.altstack }
  | .OP_FROMALTSTACK => match st.altstack with
    | [] => .error .INVALID_ALTSTACK_OPERATION
    | x :: altstack => .ok { st with stack := x :: st.stack, altstack }
  | .OP_2DROP => st.onStack fun | _ :: _ :: s => some s | _ => none
  | .OP_2DUP => st.onStack fun | x2 :: x1 :: s => some (x2 :: x1 :: x2 :: x1 :: s) | _ => none
  | .OP_3DUP => st.onStack fun | x3 :: x2 :: x1 :: s => some (x3 :: x2 :: x1 :: x3 :: x2 :: x1 :: s) | _ => none
  | .OP_2OVER => st.onStack fun | x4 :: x3 :: x2 :: x1 :: s => some (x2 :: x1 :: x4 :: x3 :: x2 :: x1 :: s) | _ => none
  | .OP_2ROT => st.onStack fun
    | x6 :: x5 :: x4 :: x3 :: x2 :: x1 :: s => some (x2 :: x1 :: x6 :: x5 :: x4 :: x3 :: s)
    | _ => none
  | .OP_2SWAP => st.onStack fun | x4 :: x3 :: x2 :: x1 :: s => some (x2 :: x1 :: x4 :: x3 :: s) | _ => none
  | .OP_IFDUP => st.onStack fun | x :: s => some (if castToBool x then x :: x :: s else x :: s) | _ => none
  | .OP_DEPTH => .ok { st with stack := CScriptNum.serialize st.stack.length :: st.stack }
  | .OP_DROP => st.onStack fun | _ :: s => some s | _ => none
  | .OP_DUP => st.onStack fun | x :: s => some (x :: x :: s) | _ => none
  | .OP_NIP => st.onStack fun | x2 :: _ :: s => some (x2 :: s) | _ => none
  | .OP_OVER => st.onStack fun | x2 :: x1 :: s => some (x1 :: x2 :: x1 :: s) | _ => none
  | .OP_PICK => ctx.pickRoll false st
  | .OP_ROLL => ctx.pickRoll true st
  | .OP_ROT => st.onStack fun | x3 :: x2 :: x1 :: s => some (x1 :: x3 :: x2 :: s) | _ => none
  | .OP_SWAP => st.onStack fun | x2 :: x1 :: s => some (x1 :: x2 :: s) | _ => none
  | .OP_TUCK => st.onStack fun | x2 :: x1 :: s => some (x2 :: x1 :: x2 :: s) | _ => none
  | .OP_SIZE => st.onStack fun | x :: s => some (CScriptNum.serialize x.length :: x :: s) | _ => none
  | .OP_EQUAL => st.onStack fun | x2 :: x1 :: s => some (boolVch (x1 == x2) :: s) | _ => none
  | .OP_EQUALVERIFY => do
    let st ← st.onStack fun | x2 :: x1 :: s => some (boolVch (x1 == x2) :: s) | _ => none
    popVerified .EQUALVERIFY st
  | .OP_1ADD => ctx.unaryNum (· + 1) st
  | .OP_1SUB => ctx.unaryNum (· - 1) st
  | .OP_NEGATE => ctx.unaryNum (- ·) st
  | .OP_ABS => ctx.unaryNum (fun bn => if bn < 0 then -bn else bn) st
  | .OP_NOT => ctx.unaryNum (fun bn => boolNum (bn == 0)) st
  | .OP_0NOTEQUAL => ctx.unaryNum (fun bn => boolNum (bn != 0)) st
  | .OP_ADD => ctx.binaryNum (· + ·) st
  | .OP_SUB => ctx.binaryNum (· - ·) st
  | .OP_BOOLAND => ctx.binaryNum (fun bn1 bn2 => boolNum (bn1 != 0 && bn2 != 0)) st
  | .OP_BOOLOR => ctx.binaryNum (fun bn1 bn2 => boolNum (bn1 != 0 || bn2 != 0)) st
  | .OP_NUMEQUAL => ctx.binaryNum (fun bn1 bn2 => boolNum (bn1 == bn2)) st
  | .OP_NUMEQUALVERIFY => do
    let st ← ctx.binaryNum (fun bn1 bn2 => boolNum (bn1 == bn2)) st
    popVerified .NUMEQUALVERIFY st
  | .OP_NUMNOTEQUAL => ctx.binaryNum (fun bn1 bn2 => boolNum (bn1 != bn2)) st
  | .OP_LESSTHAN => ctx.binaryNum (fun bn1 bn2 => boolNum (decide (bn1 < bn2))) st
  | .OP_GREATERTHAN => ctx.binaryNum (fun bn1 bn2 => boolNum (decide (bn1 > bn2))) st
  | .OP_LESSTHANOREQUAL => ctx.binaryNum (fun bn1 bn2 => boolNum (decide (bn1 ≤ bn2))) st
  | .OP_GREATERTHANOREQUAL => ctx.binaryNum (fun bn1 bn2 => boolNum (decide (bn1 ≥ bn2))) st
  | .OP_MIN => ctx.binaryNum (fun bn1 bn2 => if bn1 < bn2 then bn1 else bn2) st
  | .OP_MAX => ctx.binaryNum (fun bn1 bn2 => if bn1 > bn2 then bn1 else bn2) st
  | .OP_WITHIN => ctx.within st
  | .OP_RIPEMD160 => hash ctx.crypto.ripemd160 st
  | .OP_SHA1 => hash ctx.crypto.sha1 st
  | .OP_SHA256 => hash ctx.crypto.sha256 st
  | .OP_HASH160 => hash ctx.crypto.hash160 st
  | .OP_HASH256 => hash ctx.crypto.hash256 st
  | .OP_CODESEPARATOR => .ok { st with pbegincodehash := rest }
  | .OP_CHECKSIG => ctx.checkSig st
  | .OP_CHECKSIGVERIFY => do
    let st ← ctx.checkSig st
    popVerified .CHECKSIGVERIFY st
  | .OP_CHECKMULTISIG => ctx.checkMultiSig st
  | .OP_CHECKMULTISIGVERIFY => do
    let st ← ctx.checkMultiSig st
    popVerified .CHECKMULTISIGVERIFY st
  | .OP_CHECKCOLDSTAKEVERIFY => do
    refuse (!ctx.checker.checkColdStake ctx.script) .CHECKCOLDSTAKEVERIFY
    return st
  | _ => .error .BAD_OPCODE

/-- The push or the switch. A byte in the range of the conditionals is looked at in every branch. -/
def dispatch (opcode : UInt8) (vchPushValue : valtype) (rest : CScript) (st : EvalState) : Except ScriptError EvalState :=
  let fExec := st.vfExec.all id
  if fExec && decide (opcode ≤ OP_PUSHDATA4) then do
    refuse (ctx.fRequireMinimal && !checkMinimalPush vchPushValue opcode) .MINIMALDATA
    return { st with stack := vchPushValue :: st.stack }
  else if fExec || (decide (OP_IF ≤ opcode) && decide (opcode ≤ OP_ENDIF)) then ctx.execute (ofByte opcode) fExec rest st
  else .ok st

/-- One pass of the loop of `EvalScript`, after the operation is read. -/
def evalOp (opcode : UInt8) (vchPushValue : valtype) (rest : CScript) (st : EvalState) : Except ScriptError EvalState := do
  refuse (decide (vchPushValue.length > MAX_SCRIPT_ELEMENT_SIZE)) .PUSH_SIZE
  let nOpCount := if opcode > OP_16 then st.nOpCount + 1 else st.nOpCount
  refuse (decide (opcode > OP_16) && decide (nOpCount > 201)) .OP_COUNT
  refuse (ofByte opcode).isDisabled .DISABLED_OPCODE
  let st ← ctx.dispatch opcode vchPushValue rest { st with nOpCount }
  refuse (decide (st.stack.length + st.altstack.length > 1000)) .STACK_SIZE
  return st

/-- The loop of `EvalScript`. Every pass reads a byte at least, so the length of the script bounds them. -/
def evalLoop : Nat → CScript → EvalState → Except ScriptError EvalState
  | _, [], st => .ok st
  | 0, _, _ => .error .UNKNOWN_ERROR
  | n + 1, pc, st =>
    match CScript.getOp pc with
    | none => .error .BAD_OPCODE
    | some (opcode, vchPushValue, rest) => do
      let st ← ctx.evalOp opcode vchPushValue rest st
      evalLoop n rest st

def evalFrom (pc : CScript) (st : EvalState) : Except ScriptError EvalState := ctx.evalLoop pc.length pc st

end EvalContext

def evalScript (stack : List valtype) (script : CScript) (flags : UInt32) (checker : BaseSignatureChecker) :
    Except ScriptError (List valtype) := do
  refuse (decide (script.length > MAX_SCRIPT_SIZE)) .SCRIPT_SIZE
  let st ← ({ crypto, checker, flags, script } : EvalContext).evalFrom script { stack, pbegincodehash := script }
  refuse (!st.vfExec.isEmpty) .UNBALANCED_CONDITIONAL
  return st.stack

def checkResult (stack : List valtype) : Except ScriptError Unit :=
  refuse (!(stack.head?.any castToBool)) .EVAL_FALSE

def verifyScript (scriptSig scriptPubKey : CScript) (flags : UInt32) (checker : BaseSignatureChecker) :
    Except ScriptError Unit := do
  refuse (hasFlag flags SCRIPT_VERIFY_SIGPUSHONLY && !CScript.isPushOnly scriptSig) .SIG_PUSHONLY
  let stackCopy ← evalScript crypto [] scriptSig flags checker
  let stack ← evalScript crypto stackCopy scriptPubKey flags checker
  checkResult stack
  if hasFlag flags SCRIPT_VERIFY_P2SH && CScript.isPayToScriptHash scriptPubKey then
    refuse (!CScript.isPushOnly scriptSig) .SIG_PUSHONLY
    match stackCopy with
    | [] => .error .UNKNOWN_ERROR
    | pubKeySerialized :: stackCopy => do
      let stack ← evalScript crypto stackCopy pubKeySerialized flags checker
      checkResult stack

/-- The length a public key has by its first byte, zero for other first bytes. -/
def pubKeyLen (chHeader : UInt8) : Nat :=
  if chHeader = 2 ∨ chHeader = 3 then 33
  else if chHeader = 4 ∨ chHeader = 6 ∨ chHeader = 7 then 65
  else 0

def isValidPubKey (vch : valtype) : Bool :=
  match vch.head? with
  | none => false
  | some header => pubKeyLen header != 0 && pubKeyLen header == vch.length

def LOCKTIME_THRESHOLD : Int := 500000000

namespace TransactionSignatureChecker

def checkSig (crypto : Crypto) (txTo : CTransaction) (nIn : Nat) (vchSigIn vchPubKey : valtype) (scriptCode : CScript) : Bool :=
  isValidPubKey vchPubKey &&
    match vchSigIn.getLast? with
    | none => false
    | some nHashType => crypto.verify vchPubKey (crypto.signatureHash scriptCode txTo nIn nHashType) vchSigIn.dropLast

/-- Lock times of one kind are compared, and the input must not be final. -/
def checkLockTime (txTo : CTransaction) (nIn : Nat) (nLockTime : Int) : Bool :=
  (decide ((txTo.nLockTime : Int) < LOCKTIME_THRESHOLD) == decide (nLockTime < LOCKTIME_THRESHOLD)) &&
    !decide (nLockTime > txTo.nLockTime) && (txTo.vin[nIn]?).any fun txin => !txin.isFinal

end TransactionSignatureChecker

def transactionSignatureChecker (txTo : CTransaction) (nIn : Nat) : BaseSignatureChecker where
  checkSig := TransactionSignatureChecker.checkSig crypto txTo nIn
  checkLockTime := TransactionSignatureChecker.checkLockTime txTo nIn
  checkColdStake := txTo.checkColdStake

end SchillingCoin
