import SchillingCoin.Lib.StdMap
import SchillingCoin.Script.Script

/-!
The key pool of a file-backed wallet, after `wallet.cpp`: three sets of indices, the records of the wallet's file under
them, and the `CReserveKey` objects that hold an index taken out of its set. Writes to the file succeed.
-/

namespace SchillingCoin

structure CKeyPool where
  nTime : Int
  vchPubKey : CPubKey
  fInternal : Bool
  m_pre_split : Bool := false
  deriving DecidableEq, Repr

structure CReserveKey where
  nIndex : Int := -1
  vchPubKey : CPubKey := []
  fInternal : Bool := false
  deriving DecidableEq, Repr

namespace KeyPool

/-- The sets `setInternalKeyPool`, `setExternalKeyPool` and `set_pre_split_keypool`. -/
inductive Pool where
  | internal
  | external
  | preSplit
  deriving DecidableEq, Repr

inductive Throw where
  | readFailed
  | unknownKey
  | misclassified
  | invalidKey
  | emptySet
  deriving DecidableEq, Repr

inductive Event where
  | returned (key : CPubKey)
  | kept (key : CPubKey)
  deriving DecidableEq, Repr

structure Wallet where
  sets : Pool → List Int
  pool : StdMap Int CKeyPool
  keys : List CPubKey
  reserveKeys : Nat → CReserveKey := fun _ => {}
  log : List Event := []

structure Context where
  isLocked : Bool
  isHDEnabled : Bool
  /-- The argument `-keypool`. -/
  keypool : Int
  getTime : Int

/-- `GenerateNewKey` for account 0: a random key, or the next child of the chain that the wallet does not have. -/
structure KeySource where
  next : List CPubKey → Bool → CPubKey
  fresh : ∀ keys fInternal, next keys fInternal ∉ keys
  valid : ∀ keys fInternal, next keys fInternal ≠ []

def longerKeys : KeySource where
  next := fun keys _ => 2 :: keys.flatten
  fresh := by
    intro keys fInternal member
    have bound := (List.sublist_flatten_of_mem member).length_le
    rw [List.length_cons] at bound
    omega
  valid := by
    intro keys fInternal
    exact List.cons_ne_nil _ _

def insertIndex (indices : List Int) (nIndex : Int) : List Int := if nIndex ∈ indices then indices else indices ++ [nIndex]

namespace Wallet

variable (w : Wallet) (s : Pool) (nIndex : Int) (a : Nat) (source : KeySource) (fInternal : Bool)
  (ctx : Context) (kpSize : UInt32)

def insertInto : Wallet :=
  { w with sets := Function.update w.sets s (insertIndex (w.sets s) nIndex) }

def eraseFrom : Wallet :=
  { w with sets := Function.update w.sets s ((w.sets s).filter (· ≠ nIndex)) }

def setReserveKey (key : CReserveKey) : Wallet :=
  { w with reserveKeys := Function.update w.reserveKeys a key }

def record (event : Event) : Wallet := { w with log := event :: w.log }

def loadKeyPool (keypool : CKeyPool) : Wallet :=
  w.insertInto (if keypool.fInternal then .internal else .external) (nIndex.bmod (2 ^ 32))

def nEnd (w : Wallet) : Int :=
  let nEnd := match (w.sets .internal).max? with
    | none => 1
    | some last => last + 1
  match (w.sets .external).max? with
  | none => nEnd
  | some last => max nEnd (last + 1)

def generateNewKey (w : Wallet) : CPubKey × Wallet :=
  let key := source.next w.keys fInternal
  (key, { w with keys := key :: w.keys })

def addKey (fInternal : Bool) (w : Wallet) : Wallet :=
  let nEnd := w.nEnd
  let (key, w) := w.generateNewKey source fInternal
  let w := { w with pool := w.pool.insert nEnd { nTime := ctx.getTime, vchPubKey := key, fInternal := fInternal } }
  w.insertInto (if fInternal then .internal else .external) nEnd

/-- `nTargetSize`, an `unsigned int`. -/
def targetSize : Nat :=
  if kpSize > 0 then kpSize.toNat else (max ctx.keypool 0).toNat % 2 ^ 32

def missingExternal (w : Wallet) : Nat :=
  max (targetSize ctx kpSize) 1 - (w.sets .external).length

def missingInternal (w : Wallet) : Nat :=
  if ctx.isHDEnabled then max (targetSize ctx kpSize) 1 - (w.sets .internal).length else 0

def topUpLoop (source : KeySource) (ctx : Context) (missingInternal : Nat) : Nat → Wallet → Wallet
  | 0, w => w
  | i + 1, w => topUpLoop source ctx missingInternal i (w.addKey source ctx (decide (i < missingInternal)))

def topUpKeyPool (w : Wallet) : Wallet :=
  if ctx.isLocked then w
  else topUpLoop source ctx (missingInternal ctx kpSize w) (missingInternal ctx kpSize w + missingExternal ctx kpSize w) w

def setKeyPool : Pool :=
  if (w.sets .preSplit).isEmpty then (if fInternal then .internal else .external) else .preSplit

/-- `ReserveKeyFromKeyPool` after the top-up, with `none` for an index of -1. -/
def takeKey (w : Wallet) : Except Throw (Option (Int × CKeyPool) × Wallet) :=
  let s := w.setKeyPool fInternal
  match (w.sets s).min? with
  | none => .ok (none, w)
  | some nIndex =>
    let w := w.eraseFrom s nIndex
    match w.pool.lookup nIndex with
    | none => .error .readFailed
    | some keypool =>
      if keypool.vchPubKey ∉ w.keys then .error .unknownKey
      else if (w.sets .preSplit).isEmpty && keypool.fInternal != fInternal then .error .misclassified
      else if keypool.vchPubKey = [] then .error .invalidKey
      else .ok (some (nIndex, keypool), w)

def reserveKeyFromKeyPool (fInternal : Bool) (w : Wallet) : Except Throw (Option (Int × CKeyPool) × Wallet) :=
  let w := if !ctx.isLocked then w.topUpKeyPool source ctx 0 else w
  w.takeKey (fInternal && ctx.isHDEnabled)

def keepKey : Wallet := { w with pool := w.pool.erase nIndex }

def returnKey : Wallet :=
  w.insertInto (if fInternal then .internal else if !(w.sets .preSplit).isEmpty then .preSplit else .external) nIndex

def getKeyFromPool (fInternal : Bool) (w : Wallet) : Except Throw Wallet :=
  match w.reserveKeyFromKeyPool source ctx fInternal with
  | .error e => .error e
  | .ok (none, w) =>
    if ctx.isLocked then .ok w
    else
      let (key, w) := w.generateNewKey source fInternal
      .ok (w.record (.returned key))
  | .ok (some (nIndex, keypool), w) =>
    .ok (((w.keepKey nIndex).record (.returned keypool.vchPubKey)).record (.kept keypool.vchPubKey))

def getReservedKey (a : Nat) (fInternal : Bool) (w : Wallet) : Except Throw Wallet :=
  if (w.reserveKeys a).nIndex = -1 then
    match w.reserveKeyFromKeyPool source ctx fInternal with
    | .error e => .error e
    | .ok (none, w) => .ok w
    | .ok (some (nIndex, keypool), w) =>
      let w := w.setReserveKey a { nIndex := nIndex, vchPubKey := keypool.vchPubKey, fInternal := keypool.fInternal }
      .ok (w.record (.returned keypool.vchPubKey))
  else if (w.reserveKeys a).vchPubKey = [] then .error .invalidKey
  else .ok (w.record (.returned (w.reserveKeys a).vchPubKey))

def keepReserved (w : Wallet) : Wallet :=
  let key := w.reserveKeys a
  let w := if key.nIndex ≠ -1 then (w.keepKey key.nIndex).record (.kept key.vchPubKey) else w
  w.setReserveKey a { key with nIndex := -1, vchPubKey := [] }

def returnReserved (w : Wallet) : Wallet :=
  let key := w.reserveKeys a
  let w := if key.nIndex ≠ -1 then w.returnKey key.nIndex key.fInternal else w
  w.setReserveKey a { key with nIndex := -1, vchPubKey := [] }

def erasePools : Wallet :=
  { w with
    sets := fun _ => []
    pool := (w.sets .internal ++ w.sets .external ++ w.sets .preSplit).foldl (fun pool nIndex => pool.erase nIndex) w.pool }

def newKeyPool (w : Wallet) : Wallet := w.erasePools.topUpKeyPool source ctx 0

def markPreSplitKey (index : Int) : Except Throw Wallet :=
  match w.pool.lookup index with
  | none => .error .readFailed
  | some keypool =>
    let w := { w with pool := w.pool.insert index { keypool with m_pre_split := true } }
    .ok ((w.insertInto .preSplit index).eraseFrom .external index)

def markPreSplitKeys : Except Throw Wallet := (w.sets .external).foldlM markPreSplitKey w

def getOldestKeyInPool : Except Throw Int :=
  match (w.sets s).min? with
  | none => .error .emptySet
  | some nIndex =>
    match w.pool.lookup nIndex with
    | none => .error .readFailed
    | some keypool => if keypool.vchPubKey = [] then .error .invalidKey else .ok keypool.nTime

def getOldestKeyPoolTime : Except Throw Int := do
  let oldestKey ← w.getOldestKeyInPool .external
  if (w.sets .internal).isEmpty then return oldestKey
  let oldestKey := max (← w.getOldestKeyInPool .internal) oldestKey
  if (w.sets .preSplit).isEmpty then return oldestKey
  return max (← w.getOldestKeyInPool .preSplit) oldestKey

end Wallet

inductive Op where
  | topUpKeyPool (kpSize : UInt32)
  | getReservedKey (a : Nat) (fInternal : Bool)
  | keepKey (a : Nat)
  | returnKey (a : Nat)
  | getKeyFromPool (fInternal : Bool)
  | newKeyPool
  | markPreSplitKeys
  | getOldestKeyPoolTime

def step (source : KeySource) (w : Except Throw Wallet) (d : Context × Op) : Except Throw Wallet :=
  match w with
  | .error e => .error e
  | .ok w =>
    match d.2 with
    | .topUpKeyPool kpSize => .ok (w.topUpKeyPool source d.1 kpSize)
    | .getReservedKey a fInternal => w.getReservedKey source d.1 a fInternal
    | .keepKey a => .ok (w.keepReserved a)
    | .returnKey a => .ok (w.returnReserved a)
    | .getKeyFromPool fInternal => w.getKeyFromPool source d.1 fInternal
    | .newKeyPool => .ok (w.newKeyPool source d.1)
    | .markPreSplitKeys => w.markPreSplitKeys
    | .getOldestKeyPoolTime => w.getOldestKeyPoolTime.map fun _ => w

/-- A wallet's file: different keys of the wallet under indices that an `int` holds. -/
structure File where
  pool : StdMap Int CKeyPool
  keys : List CPubKey
  index : ∀ nIndex keypool, pool.lookup nIndex = some keypool → 0 < nIndex ∧ nIndex < 2 ^ 31
  owned : ∀ nIndex keypool, pool.lookup nIndex = some keypool → keypool.vchPubKey ∈ keys
  apart : ∀ nIndex keypool nIndex' keypool', pool.lookup nIndex = some keypool → pool.lookup nIndex' = some keypool' →
    keypool.vchPubKey = keypool'.vchPubKey → nIndex = nIndex'
  valid : ∀ key ∈ keys, key ≠ []

def File.load (file : File) : Wallet :=
  file.pool.entries.foldl (fun w entry => w.loadKeyPool entry.1 entry.2) { sets := fun _ => [], pool := file.pool, keys := file.keys }

/-- From a wallet that was just loaded; an exception ends the run. -/
def run (source : KeySource) (file : File) (ops : List (Context × Op)) : Except Throw Wallet :=
  ops.foldl (step source) (.ok file.load)

end KeyPool

end SchillingCoin
