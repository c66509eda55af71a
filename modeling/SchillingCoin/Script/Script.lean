import SchillingCoin.Primitives.Transaction

/-!
Scripts as byte strings and as sequences of operations, after `script.h`, `script.cpp` and
`GetScriptForStakeDelegation` in `standard.cpp`.
-/

namespace SchillingCoin

/-- An element of the stack. -/
abbrev valtype := List UInt8

def MAX_SCRIPT_ELEMENT_SIZE : Nat := 520

def OP_PUSHDATA1 : UInt8 := 0x4c
def OP_PUSHDATA2 : UInt8 := 0x4d
def OP_PUSHDATA4 : UInt8 := 0x4e
def OP_1NEGATE : UInt8 := 0x4f
def OP_1 : UInt8 := 0x51
def OP_16 : UInt8 := 0x60
def OP_IF : UInt8 := 0x63
def OP_ENDIF : UInt8 := 0x68

/-- The operations. The pushes with data are one constructor, and so are the pushes of a small number. -/
inductive opcodetype where
  | OP_PUSHDATA
  | OP_N (n : Int)
  | OP_RESERVED
  | OP_NOP | OP_VER | OP_IF | OP_NOTIF | OP_VERIF | OP_VERNOTIF | OP_ELSE | OP_ENDIF | OP_VERIFY | OP_RETURN
  | OP_TOALTSTACK | OP_FROMALTSTACK | OP_2DROP | OP_2DUP | OP_3DUP | OP_2OVER | OP_2ROT | OP_2SWAP | OP_IFDUP
  | OP_DEPTH | OP_DROP | OP_DUP | OP_NIP | OP_OVER | OP_PICK | OP_ROLL | OP_ROT | OP_SWAP | OP_TUCK
  | OP_CAT | OP_SUBSTR | OP_LEFT | OP_RIGHT | OP_SIZE
  | OP_INVERT | OP_AND | OP_OR | OP_XOR | OP_EQUAL | OP_EQUALVERIFY | OP_RESERVED1 | OP_RESERVED2
  | OP_1ADD | OP_1SUB | OP_2MUL | OP_2DIV | OP_NEGATE | OP_ABS | OP_NOT | OP_0NOTEQUAL
  | OP_ADD | OP_SUB | OP_MUL | OP_DIV | OP_MOD | OP_LSHIFT | OP_RSHIFT
  | OP_BOOLAND | OP_BOOLOR | OP_NUMEQUAL | OP_NUMEQUALVERIFY | OP_NUMNOTEQUAL | OP_LESSTHAN | OP_GREATERTHAN
  | OP_LESSTHANOREQUAL | OP_GREATERTHANOREQUAL | OP_MIN | OP_MAX | OP_WITHIN
  | OP_RIPEMD160 | OP_SHA1 | OP_SHA256 | OP_HASH160 | OP_HASH256 | OP_CODESEPARATOR
  | OP_CHECKSIG | OP_CHECKSIGVERIFY | OP_CHECKMULTISIG | OP_CHECKMULTISIGVERIFY
  | OP_NOP1 | OP_CHECKLOCKTIMEVERIFY | OP_NOP3 | OP_NOP4 | OP_NOP5 | OP_NOP6 | OP_NOP7 | OP_NOP8 | OP_NOP9 | OP_NOP10
  | OP_CHECKCOLDSTAKEVERIFY
  /-- A byte that no branch of the interpreter handles. -/
  | OP_INVALIDOPCODE
  deriving Repr

namespace opcodetype

/-- The operations from `0x61` on, in the order of their bytes. -/
def fromNop : List opcodetype :=
  [OP_NOP, OP_VER, OP_IF, OP_NOTIF, OP_VERIF, OP_VERNOTIF, OP_ELSE, OP_ENDIF, OP_VERIFY, OP_RETURN,
   OP_TOALTSTACK, OP_FROMALTSTACK, OP_2DROP, OP_2DUP, OP_3DUP, OP_2OVER, OP_2ROT, OP_2SWAP, OP_IFDUP,
   OP_DEPTH, OP_DROP, OP_DUP, OP_NIP, OP_OVER, OP_PICK, OP_ROLL, OP_ROT, OP_SWAP, OP_TUCK,
   OP_CAT, OP_SUBSTR, OP_LEFT, OP_RIGHT, OP_SIZE,
   OP_INVERT, OP_AND, OP_OR, OP_XOR, OP_EQUAL, OP_EQUALVERIFY, OP_RESERVED1, OP_RESERVED2,
   OP_1ADD, OP_1SUB, OP_2MUL, OP_2DIV, OP_NEGATE, OP_ABS, OP_NOT, OP_0NOTEQUAL,
   OP_ADD, OP_SUB, OP_MUL, OP_DIV, OP_MOD, OP_LSHIFT, OP_RSHIFT,
   OP_BOOLAND, OP_BOOLOR, OP_NUMEQUAL, OP_NUMEQUALVERIFY, OP_NUMNOTEQUAL, OP_LESSTHAN, OP_GREATERTHAN,
   OP_LESSTHANOREQUAL, OP_GREATERTHANOREQUAL, OP_MIN, OP_MAX, OP_WITHIN,
   OP_RIPEMD160, OP_SHA1, OP_SHA256, OP_HASH160, OP_HASH256, OP_CODESEPARATOR,
   OP_CHECKSIG, OP_CHECKSIGVERIFY, OP_CHECKMULTISIG, OP_CHECKMULTISIGVERIFY,
   OP_NOP1, OP_CHECKLOCKTIMEVERIFY, OP_NOP3, OP_NOP4, OP_NOP5, OP_NOP6, OP_NOP7, OP_NOP8, OP_NOP9, OP_NOP10]

def ofByte (b : UInt8) : opcodetype :=
  if b ≤ OP_PUSHDATA4 then OP_PUSHDATA
  else if b = OP_1NEGATE ∨ (OP_1 ≤ b ∧ b ≤ OP_16) then OP_N (b.toNat - 0x50)
  else if b = 0x50 then OP_RESERVED
  else if b = 0xd1 then OP_CHECKCOLDSTAKEVERIFY
  else fromNop.getD (b.toNat - 0x61) OP_INVALIDOPCODE

def isDisabled : opcodetype → Bool
  | OP_CAT | OP_SUBSTR | OP_LEFT | OP_RIGHT | OP_INVERT | OP_AND | OP_OR | OP_XOR | OP_2MUL | OP_2DIV | OP_MUL | OP_DIV
  | OP_MOD | OP_LSHIFT | OP_RSHIFT => true
  | _ => false

end opcodetype

namespace CScript

def littleEndian (bytes : List UInt8) : Nat := bytes.foldr (fun b n => b.toNat + 256 * n) 0

def sizeWidth (opcode : UInt8) : Nat := if opcode = OP_PUSHDATA1 then 1 else if opcode = OP_PUSHDATA2 then 2 else 4

def getPushSize (opcode : UInt8) (pc : CScript) : Option (Nat × CScript) :=
  if opcode < OP_PUSHDATA1 then some (opcode.toNat, pc)
  else if pc.length < sizeWidth opcode then none
  else some (littleEndian (pc.take (sizeWidth opcode)), pc.drop (sizeWidth opcode))

def getOp : CScript → Option (UInt8 × valtype × CScript)
  | [] => none
  | opcode :: pc =>
    if opcode ≤ OP_PUSHDATA4 then do
      let (nSize, pc) ← getPushSize opcode pc
      if pc.length < nSize then none else some (opcode, pc.take nSize, pc.drop nSize)
    else some (opcode, [], pc)

def pushData (b : valtype) : CScript :=
  if b.length < 0x4c then UInt8.ofNat b.length :: b
  else if b.length ≤ 0xff then OP_PUSHDATA1 :: UInt8.ofNat b.length :: b
  else if b.length ≤ 0xffff then
    OP_PUSHDATA2 :: UInt8.ofNat b.length :: UInt8.ofNat (b.length / 0x100) :: b
  else
    OP_PUSHDATA4 :: UInt8.ofNat b.length :: UInt8.ofNat (b.length / 0x100) :: UInt8.ofNat (b.length / 0x10000) ::
      UInt8.ofNat (b.length / 0x1000000) :: b

/-- The script without the copies of `b` it starts with. -/
def dropCopies (b : CScript) : Nat → CScript → CScript
  | 0, pc => pc
  | n + 1, pc => if b.isPrefixOf pc then dropCopies b n (pc.drop b.length) else pc

/-- The loop of `FindAndDelete`, which looks for `b` where an operation starts. -/
def findAndDeleteFrom (b : CScript) : Nat → CScript → CScript
  | 0, pc => pc
  | n + 1, pc =>
    let pc := dropCopies b pc.length pc
    match getOp pc with
    | none => pc
    | some (_, _, next) => pc.take (pc.length - next.length) ++ findAndDeleteFrom b n next

def findAndDelete (s b : CScript) : CScript := if b.isEmpty then s else findAndDeleteFrom b (s.length + 1) s

def isPushOnlyFrom : Nat → CScript → Bool
  | _, [] => true
  | 0, _ => false
  | n + 1, pc => match getOp pc with
    | none => false
    | some (opcode, _, next) => !decide (opcode > OP_16) && isPushOnlyFrom n next

def isPushOnly (s : CScript) : Bool := isPushOnlyFrom s.length s

theorem getOp_length (h : getOp pc = some (opcode, data, next)) : next.length < pc.length := by
  cases pc with
  | nil => cases h
  | cons b pc =>
    simp only [getOp] at h
    split at h
    · simp only [Option.bind_eq_bind, Option.bind_eq_some_iff] at h
      obtain ⟨⟨nSize, rest⟩, size, h⟩ := h
      have shorter : rest.length ≤ pc.length := by
        unfold getPushSize at size
        split at size
        · obtain ⟨_, rfl⟩ := Prod.mk.inj (Option.some.inj size)
          exact Nat.le_refl _
        · split at size
          · cases size
          · obtain ⟨_, rfl⟩ := Prod.mk.inj (Option.some.inj size)
            simp
      simp only at h
      split at h
      · cases h
      · obtain ⟨_, _, rfl⟩ := Option.some.inj h
        simp only [List.length_drop, List.length_cons]
        omega
    · obtain ⟨_, _, rfl⟩ := Option.some.inj h
      simp

theorem getOp_plain (plain : ¬opcode ≤ OP_PUSHDATA4) (pc : CScript) : getOp (opcode :: pc) = some (opcode, [], pc) := by
  simp [getOp, plain]

theorem getOp_push (short : opcode < OP_PUSHDATA1) (size : opcode.toNat = data.length) (pc : CScript) :
    getOp (opcode :: (data ++ pc)) = some (opcode, data, pc) := by
  have push : opcode ≤ OP_PUSHDATA4 := by
    have : opcode < 0x4c := short
    show opcode ≤ 0x4e
    exact UInt8.le_iff_toNat_le.mpr (by have := UInt8.lt_iff_toNat_lt.mp this; simp at *; omega)
  simp [getOp, push, getPushSize, short, size]

end CScript

namespace CScriptNum

def nDefaultMaxNumSize : Nat := 4

def bytesOf : Nat → Nat → List UInt8
  | 0, _ => []
  | _ + 1, 0 => []
  | n + 1, value => UInt8.ofNat value :: bytesOf n (value / 256)

def serialize (value : Int) : valtype :=
  let result := bytesOf 8 value.natAbs
  match result.getLast? with
  | none => []
  | some last =>
    if last &&& 0x80 ≠ 0 then result ++ [if value < 0 then 0x80 else 0]
    else if value < 0 then result.dropLast ++ [last ||| 0x80]
    else result

def setVch (vch : valtype) : Int :=
  match vch.getLast? with
  | none => 0
  | some last =>
    if last &&& 0x80 ≠ 0 then -(CScript.littleEndian (vch.dropLast ++ [last &&& 0x7f]) : Int)
    else CScript.littleEndian vch

def isMinimal (vch : valtype) : Bool :=
  match vch.reverse with
  | [] => true
  | last :: rest => last &&& 0x7f != 0 || rest.head?.any fun before => before &&& 0x80 != 0

/-- `none` is the exception for an operand that is too long or not minimal. -/
def ofVch (vch : valtype) (fRequireMinimal : Bool) (nMaxNumSize : Nat) : Option Int :=
  if vch.length > nMaxNumSize then none
  else if fRequireMinimal && !isMinimal vch then none
  else some (setVch vch)

def getint (value : Int) : Int := max (-(2 ^ 31)) (min (2 ^ 31 - 1) value)

end CScriptNum

abbrev CPubKey := valtype

structure CKeyID where
  bytes : valtype
  size : bytes.length = 20

theorem CKeyID.size_replicate (b : UInt8) : (List.replicate 20 b).length = 20 := List.length_replicate

def CKeyID.filled (b : UInt8) : CKeyID := ⟨List.replicate 20 b, size_replicate b⟩

theorem CKeyID.size_padded (bytes : valtype) : ((bytes ++ List.replicate 20 0).take 20).length = 20 := by simp

/-- DUP HASH160 ROT IF CHECKCOLDSTAKEVERIFY <staking key> ELSE <spending key> ENDIF EQUALVERIFY CHECKSIG. -/
def getScriptForStakeDelegation (stakingKey spendingKey : CKeyID) : CScript :=
  [0x76, 0xa9, 0x7b, 0x63, 0xd1] ++ CScript.pushData stakingKey.bytes ++ [0x67] ++ CScript.pushData spendingKey.bytes ++
    [0x68, 0x88, 0xac]

end SchillingCoin
