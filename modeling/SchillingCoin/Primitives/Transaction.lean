import Mathlib.Algebra.GroupWithZero.Nat
import Mathlib.Algebra.Ring.Int.Defs
import Mathlib.Data.List.Basic
import Mathlib.Data.Nat.Basic

/-!
Outpoints, inputs, outputs and transactions, after `primitives/transaction.h` and the tests on
scripts that they use. Amounts, `CAmount` in the source, are integers.
-/

namespace SchillingCoin

abbrev uint256 := BitVec 256

def COIN : Int := 100000000

/-- The value of a sum or a difference that is computed in `int64_t`. -/
def int64 (x : Int) : Int := x.bmod (2 ^ 64)

abbrev CScript := List UInt8

def MAX_SCRIPT_SIZE : Nat := 10000

def OP_RETURN : UInt8 := 0x6a
def OP_ZEROCOINMINT : UInt8 := 0xc1
def OP_ZEROCOINSPEND : UInt8 := 0xc2

namespace CScript

variable (s : CScript)

def startsWithOpcode (opcode : UInt8) : Bool := s.head? == some opcode

def isZerocoinMint : Bool := startsWithOpcode s OP_ZEROCOINMINT

def isZerocoinSpend : Bool := startsWithOpcode s OP_ZEROCOINSPEND

def isPayToScriptHash : Bool :=
  s.length == 23 && s[0]? == some 0xa9 && s[1]? == some 0x14 && s[22]? == some 0x87

def isPayToColdStaking : Bool :=
  s.length == 51 && s[2]? == some 0x7b && s[4]? == some 0xd1 && s[5]? == some 0x14 && s[27]? == some 0x14 &&
    s[49]? == some 0x88 && s[50]? == some 0xac

/-- The script cannot be satisfied, so its output never enters the coins view. -/
def isUnspendable : Bool :=
  startsWithOpcode s OP_RETURN || decide (s.length > MAX_SCRIPT_SIZE)

end CScript

structure COutPoint where
  hash : uint256
  n : Nat
  deriving DecidableEq, Repr

namespace COutPoint

def null : COutPoint := ⟨0, 0xffffffff⟩

def isNull (o : COutPoint) : Bool := o.hash == 0 && o.n == 0xffffffff

end COutPoint

structure CTxIn where
  prevout : COutPoint
  scriptSig : CScript := []
  nSequence : Nat := 0xffffffff
  deriving DecidableEq, Repr

namespace CTxIn

def isZerocoinSpend (i : CTxIn) : Bool := i.prevout.hash == 0 && CScript.isZerocoinSpend i.scriptSig

def isFinal (i : CTxIn) : Bool := i.nSequence == 0xffffffff

end CTxIn

structure CTxOut where
  nValue : Int
  scriptPubKey : CScript
  nRounds : Int := -10
  deriving DecidableEq, Repr

namespace CTxOut

def null : CTxOut := { nValue := -1, scriptPubKey := [], nRounds := -10 }

instance : Inhabited CTxOut := ⟨null⟩

def isNull (o : CTxOut) : Bool := o.nValue == -1

def isEmpty (o : CTxOut) : Bool := o.nValue == 0 && o.scriptPubKey.isEmpty

def isZerocoinMint (o : CTxOut) : Bool := CScript.isZerocoinMint o.scriptPubKey

@[simp] theorem isNull_null : null.isNull = true := rfl

theorem isNull_iff {o : CTxOut} : o.isNull = true ↔ o.nValue = -1 := by simp [isNull]

end CTxOut

structure CTransaction where
  hash : uint256
  nVersion : Int := 1
  vin : List CTxIn
  vout : List CTxOut
  nLockTime : Nat := 0
  deriving DecidableEq, Repr

namespace CTransaction

variable (tx : CTransaction)

def getHash : uint256 := tx.hash

def hasZerocoinSpendInputs : Bool := tx.vin.any CTxIn.isZerocoinSpend

def hasZerocoinMintOutputs : Bool := tx.vout.any CTxOut.isZerocoinMint

def hasZerocoinPublicSpendInputs (_ : CTransaction) : Bool := false

def containsZerocoins : Bool :=
  tx.hasZerocoinSpendInputs || tx.hasZerocoinPublicSpendInputs || tx.hasZerocoinMintOutputs

def isCoinBase : Bool :=
  match tx.vin with
  | [i] => i.prevout.isNull && !tx.containsZerocoins
  | _ => false

def isCoinStake : Bool :=
  match tx.vin with
  | [] => false
  | i :: _ =>
    let fAllowNull := i.isZerocoinSpend
    if i.prevout.isNull && !fAllowNull then false
    else match tx.vout with
      | o :: _ :: _ => o.isEmpty
      | _ => false

def hasP2CSOutputs : Bool := tx.vout.any fun o => CScript.isPayToColdStaking o.scriptPubKey

/-- The transaction is a cold stake of the script: its inputs share one `scriptSig`, and the script is
paid again. The outputs after the second are compared when there are more than three inputs. -/
def checkColdStake (script : CScript) : Bool :=
  tx.isCoinStake &&
    match tx.vin, tx.vout with
    | first :: others, _ :: staked :: rest =>
      others.all (fun i => i.scriptSig == first.scriptSig) && staked.scriptPubKey == script &&
        (!decide (tx.vin.length > 3) || rest.dropLast.all fun o => o.scriptPubKey == script)
    | _, _ => false

/-- The sum of the output values. `none` is the exception thrown for a negative value and for a sum
that wraps. -/
def getValueOut : Option Int :=
  tx.vout.foldlM (fun nValueOut o =>
    if o.nValue < 0 then none
    else if nValueOut + o.nValue ≥ 2 ^ 63 then none
    else some (nValueOut + o.nValue)) 0

def spendsCoins : Bool := !tx.isCoinBase && !tx.hasZerocoinSpendInputs

def prevouts : List COutPoint := tx.vin.map CTxIn.prevout

variable {tx : CTransaction}

theorem spendInputs_false (free : tx.containsZerocoins = false) : tx.hasZerocoinSpendInputs = false := by
  simp only [containsZerocoins, Bool.or_eq_false_iff] at free
  exact free.1.1

theorem spendsCoins_iff :
    tx.spendsCoins = true ↔ tx.isCoinBase = false ∧ tx.hasZerocoinSpendInputs = false := by
  simp [spendsCoins]

theorem spendsCoins_of_free (free : tx.containsZerocoins = false) : tx.spendsCoins = !tx.isCoinBase := by
  rw [spendsCoins, spendInputs_false free, Bool.not_false, Bool.and_true]

theorem spendInputs_of_isCoinBase (base : tx.isCoinBase = true) : tx.hasZerocoinSpendInputs = false := by
  unfold isCoinBase at base
  split at base
  · simp only [Bool.and_eq_true, Bool.not_eq_true'] at base
    exact spendInputs_false base.2
  · cases base

theorem mintOutputs_false (free : tx.containsZerocoins = false) : tx.hasZerocoinMintOutputs = false := by
  simp only [containsZerocoins, Bool.or_eq_false_iff] at free
  exact free.2

end CTransaction

end SchillingCoin
