import SchillingCoin.Lib.Buckets
import SchillingCoin.Lib.Checked
import SchillingCoin.Lib.StdMap
import SchillingCoin.Primitives.Transaction
import Mathlib.Data.List.FinRange
import Mathlib.Data.Finset.Basic

/-!
The address manager, after `addrman.h` and `addrman.cpp`. `none` is a failed assertion, and an entry that `mapInfo[]` would have to make
up. The hashes that place an address in the tables are parameters, the random numbers and the times are data of each call.
-/

namespace SchillingCoin.Net

open Checked (refuse)

structure CNetAddr where
  ip : BitVec 128
  deriving DecidableEq, Repr

structure CService extends CNetAddr where
  port : Nat
  deriving DecidableEq, Repr

structure CAddress extends CService where
  nServices : Nat := 0
  nTime : Nat := 0
  deriving DecidableEq, Repr

structure CAddrInfo extends CAddress where
  source : CNetAddr
  nLastTry : Int := 0
  nLastCountAttempt : Int := 0
  nLastSuccess : Int := 0
  nAttempts : Int := 0
  nRefCount : Int := 0
  fInTried : Bool := false
  nRandomPos : Nat
  deriving DecidableEq, Repr

def ADDRMAN_TRIED_BUCKET_COUNT : Nat := 256
def ADDRMAN_NEW_BUCKET_COUNT : Nat := 1024
def ADDRMAN_BUCKET_SIZE : Nat := 64
def ADDRMAN_NEW_BUCKETS_PER_ADDRESS : Int := 8
def ADDRMAN_HORIZON_DAYS : Int := 30
def ADDRMAN_RETRIES : Int := 3
def ADDRMAN_MAX_FAILURES : Int := 10
def ADDRMAN_MIN_FAIL_DAYS : Int := 7
def ADDRMAN_GETADDR_MAX_PCT : Nat := 23
def ADDRMAN_GETADDR_MAX : Nat := 2500

abbrev TriedBucket := Fin ADDRMAN_TRIED_BUCKET_COUNT
abbrev NewBucket := Fin ADDRMAN_NEW_BUCKET_COUNT
abbrev BucketPosition := Fin ADDRMAN_BUCKET_SIZE

structure AddrBuckets where
  isRoutable : CNetAddr → Bool
  getTriedBucket : (nKey : uint256) → CService → TriedBucket
  getNewBucket : (nKey : uint256) → CNetAddr → (src : CNetAddr) → NewBucket
  getBucketPosition : (nKey : uint256) → (fNew : Bool) → (nBucket : Nat) → CService → BucketPosition

def CAddrInfo.isTerrible (info : CAddrInfo) (nNow : Int) : Bool :=
  if info.nLastTry ≠ 0 ∧ info.nLastTry ≥ nNow - 60 then false
  else if (info.nTime : Int) > nNow + 10 * 60 then true
  else if info.nTime = 0 ∨ nNow - info.nTime > ADDRMAN_HORIZON_DAYS * 24 * 60 * 60 then true
  else if info.nLastSuccess = 0 ∧ info.nAttempts ≥ ADDRMAN_RETRIES then true
  else if nNow - info.nLastSuccess > ADDRMAN_MIN_FAIL_DAYS * 24 * 60 * 60 ∧ info.nAttempts ≥ ADDRMAN_MAX_FAILURES then true
  else false

abbrev Table (n : Nat) := Buckets.Table (Fin n) BucketPosition Nat

structure CAddrMan where
  nKey : uint256
  nIdCount : Nat := 0
  mapInfo : StdMap Nat CAddrInfo := ∅
  mapAddr : StdMap CNetAddr Nat := ∅
  vRandom : List Nat := []
  nTried : Int := 0
  vvTried : Table ADDRMAN_TRIED_BUCKET_COUNT := fun _ _ => none
  nNew : Int := 0
  vvNew : Table ADDRMAN_NEW_BUCKET_COUNT := fun _ _ => none
  nLastGood : Int := 1

namespace CAddrMan

variable (k : AddrBuckets)

variable (s : CAddrMan) (info : CAddrInfo) (nId : Nat) (nKBucket : TriedBucket)
  (nKBucketPos : BucketPosition) (addr : CService) (nTime : Int)

def newPos (nBucket : NewBucket) : BucketPosition :=
  k.getBucketPosition s.nKey true nBucket info.toCService

def triedBucket : TriedBucket := k.getTriedBucket s.nKey info.toCService

def triedPos : BucketPosition :=
  k.getBucketPosition s.nKey false (s.triedBucket k info) info.toCService

def setInfo (info : CAddrInfo) : CAddrMan := { s with mapInfo := s.mapInfo.insert nId info }

def find (addr : CNetAddr) : Option (Nat × CAddrInfo) := do
  let nId ← s.mapAddr.lookup addr
  let info ← s.mapInfo.lookup nId
  return (nId, info)

def create (addr : CAddress) (addrSource : CNetAddr) : CAddrMan :=
  { s with
    nIdCount := s.nIdCount + 1
    mapInfo := s.mapInfo.insert s.nIdCount { addr with source := addrSource, nRandomPos := s.vRandom.length }
    mapAddr := s.mapAddr.insert addr.toCNetAddr s.nIdCount
    vRandom := s.vRandom ++ [s.nIdCount] }

def swapRandom (nRndPos1 nRndPos2 : Nat) : Option CAddrMan :=
  if nRndPos1 = nRndPos2 then some s
  else do
    let nId1 ← s.vRandom[nRndPos1]?
    let nId2 ← s.vRandom[nRndPos2]?
    let info1 ← s.mapInfo.lookup nId1
    let info2 ← s.mapInfo.lookup nId2
    return { s with
      mapInfo := (s.mapInfo.insert nId1 { info1 with nRandomPos := nRndPos2 }).insert nId2 { info2 with nRandomPos := nRndPos1 }
      vRandom := (s.vRandom.set nRndPos1 nId2).set nRndPos2 nId1 }

/-- The end of `Delete`, once the entry is the last of `vRandom`. -/
def dropLast (s : CAddrMan) (nId : Nat) (info : CAddrInfo) : CAddrMan :=
  { s with
    vRandom := s.vRandom.dropLast, mapAddr := s.mapAddr.erase info.toCNetAddr
    mapInfo := s.mapInfo.erase nId, nNew := s.nNew - 1 }

def delete : Option CAddrMan := do
  let info ← s.mapInfo.lookup nId
  if info.fInTried || decide (info.nRefCount ≠ 0) then none
  else (s.swapRandom info.nRandomPos (s.vRandom.length - 1)).map fun s => s.dropLast nId info

def clearNew (nUBucket : NewBucket) (nUBucketPos : BucketPosition) : Option CAddrMan :=
  match s.vvNew nUBucket nUBucketPos with
  | none => some s
  | some nIdDelete => do
    let infoDelete ← s.mapInfo.lookup nIdDelete
    let infoLess := { infoDelete with nRefCount := infoDelete.nRefCount - 1 }
    let cleared := { s.setInfo nIdDelete infoLess with vvNew := Buckets.set s.vvNew nUBucket nUBucketPos none }
    if infoDelete.nRefCount ≤ 0 then none
    else if infoLess.nRefCount = 0 then cleared.delete nIdDelete
    else some cleared

def forgetBucket (info : CAddrInfo) (left : Table ADDRMAN_NEW_BUCKET_COUNT × Int) (bucket : NewBucket) :
    Table ADDRMAN_NEW_BUCKET_COUNT × Int :=
  if left.1 bucket (s.newPos k info bucket) = some nId then (Buckets.set left.1 bucket (s.newPos k info bucket) none, left.2 - 1) else left

def forgetNew (info : CAddrInfo) : CAddrMan :=
  let left := (List.finRange ADDRMAN_NEW_BUCKET_COUNT).foldl (s.forgetBucket k nId info) (s.vvNew, info.nRefCount)
  { s.setInfo nId { info with nRefCount := left.2 } with vvNew := left.1, nNew := s.nNew - 1 }

def evict (nIdEvict : Nat) : Option CAddrMan := do
  let infoOld ← s.mapInfo.lookup nIdEvict
  let untried := { s.setInfo nIdEvict { infoOld with fInTried := false } with
    vvTried := Buckets.set s.vvTried nKBucket nKBucketPos none, nTried := s.nTried - 1 }
  let nUBucket := k.getNewBucket s.nKey infoOld.toCNetAddr infoOld.source
  let nUBucketPos := s.newPos k infoOld nUBucket
  let cleared ← untried.clearNew nUBucket nUBucketPos
  let info ← cleared.mapInfo.lookup nIdEvict
  if cleared.vvNew nUBucket nUBucketPos ≠ none then none
  else some { cleared.setInfo nIdEvict { info with nRefCount := 1 } with
    vvNew := Buckets.set cleared.vvNew nUBucket nUBucketPos (some nIdEvict), nNew := cleared.nNew + 1 }

def makeRoom : Option CAddrMan :=
  match s.vvTried nKBucket nKBucketPos with
  | none => some s
  | some nIdEvict => s.evict k nKBucket nKBucketPos nIdEvict

def enterTried : Option CAddrMan := do
  let info ← s.mapInfo.lookup nId
  if s.vvTried nKBucket nKBucketPos ≠ none then none
  else some { s.setInfo nId { info with fInTried := true } with
    vvTried := Buckets.set s.vvTried nKBucket nKBucketPos (some nId), nTried := s.nTried + 1 }

def makeTried : Option CAddrMan := do
  let info ← s.mapInfo.lookup nId
  let forgotten := s.forgetNew k nId info
  let info ← forgotten.mapInfo.lookup nId
  if info.nRefCount ≠ 0 then none
  else do
    let room ← forgotten.makeRoom k (s.triedBucket k info) (s.triedPos k info)
    room.enterTried nId (s.triedBucket k info) (s.triedPos k info)

/-- Some bucket holds the entry; the search starts anywhere. -/
def inNewBucket (info : CAddrInfo) (nRnd : Nat) : Bool :=
  (List.range ADDRMAN_NEW_BUCKET_COUNT).any fun n =>
    let nB : NewBucket := Fin.ofNat 1024 (n + nRnd)
    s.vvNew nB (s.newPos k info nB) == some nId

def findService : Option (Nat × CAddrInfo) :=
  (s.find addr.toCNetAddr).filter fun found => found.2.toCService == addr

def good_ (nRnd : Nat) : Option CAddrMan :=
  let s := { s with nLastGood := nTime }
  match s.findService addr with
  | none => some s
  | some (nId, info) =>
    let s := s.setInfo nId { info with nLastSuccess := nTime, nLastTry := nTime, nAttempts := 0 }
    if info.fInTried then some s
    else if s.inNewBucket k nId info nRnd then s.makeTried k nId
    else some s

/-- What `Add_` does to an entry that is known: a later time and more services. -/
def CAddrInfo.seen (addr : CAddress) (nTimePenalty nNow : Int) : CAddrInfo :=
  let nUpdateInterval : Int := if nNow - addr.nTime < 24 * 60 * 60 then 60 * 60 else 24 * 60 * 60
  let nTime :=
    if addr.nTime ≠ 0 ∧ (info.nTime = 0 ∨ (info.nTime : Int) < addr.nTime - nUpdateInterval - nTimePenalty) then
      (max 0 (addr.nTime - nTimePenalty) % 2 ^ 32).toNat
    else info.nTime
  { info with nTime, nServices := info.nServices ||| addr.nServices }

def insertNew (nUBucket : NewBucket) (nUBucketPos : BucketPosition) : Option CAddrMan := do
  let cleared ← s.clearNew nUBucket nUBucketPos
  let info ← cleared.mapInfo.lookup nId
  return { cleared.setInfo nId { info with nRefCount := info.nRefCount + 1 } with
    vvNew := Buckets.set cleared.vvNew nUBucket nUBucketPos (some nId) }

/-- The end of `Add_`: the entry takes its place in a new bucket, unless a better one is there. -/
def place (source : CNetAddr) (nNow : Int) : Option CAddrMan := do
  let info ← s.mapInfo.lookup nId
  let nUBucket := k.getNewBucket s.nKey info.toCNetAddr source
  let nUBucketPos := s.newPos k info nUBucket
  match s.vvNew nUBucket nUBucketPos with
  | none => s.insertNew nId nUBucket nUBucketPos
  | some existing =>
    if existing = nId then some s
    else do
      let infoExisting ← s.mapInfo.lookup existing
      if infoExisting.isTerrible nNow || decide (infoExisting.nRefCount > 1 ∧ info.nRefCount = 0) then
        s.insertNew nId nUBucket nUBucketPos
      else if info.nRefCount = 0 then s.delete nId
      else some s

structure AddDraws where
  nNow : Int
  nNowTerrible : Int
  nRandom : Nat

def add_ (addr : CAddress) (source : CNetAddr) (nTimePenalty : Int) (draws : AddDraws) : Option (Bool × CAddrMan) :=
  if !k.isRoutable addr.toCNetAddr then some (false, s)
  else match s.find addr.toCNetAddr with
    | some (nId, info) =>
      let info := CAddrInfo.seen info addr nTimePenalty draws.nNow
      let s := s.setInfo nId info
      if addr.nTime = 0 ∨ (info.nTime ≠ 0 ∧ addr.nTime ≤ info.nTime) then some (false, s)
      else if info.fInTried then some (false, s)
      else if info.nRefCount = ADDRMAN_NEW_BUCKETS_PER_ADDRESS then some (false, s)
      else if draws.nRandom % 2 ^ info.nRefCount.toNat ≠ 0 then some (false, s)
      else (s.place k nId source draws.nNowTerrible).map fun s => (false, s)
    | none =>
      let nId := s.nIdCount
      let s := s.create { addr with nTime := (max 0 ((addr.nTime : Int) - nTimePenalty) % 2 ^ 32).toNat } source
      (({ s with nNew := s.nNew + 1 } : CAddrMan).place k nId source draws.nNowTerrible).map fun s => (true, s)

def attempt_ (fCountFailure : Bool) (nTime : Int) : CAddrMan :=
  match s.findService addr with
  | none => s
  | some (nId, info) =>
    if fCountFailure && decide (info.nLastCountAttempt < s.nLastGood) then
      s.setInfo nId { info with nLastTry := nTime, nLastCountAttempt := nTime, nAttempts := info.nAttempts + 1 }
    else s.setInfo nId { info with nLastTry := nTime }

def connected_ : CAddrMan :=
  match s.findService addr with
  | none => s
  | some (nId, info) =>
    if nTime - info.nTime > 20 * 60 then s.setInfo nId { info with nTime := (nTime % 2 ^ 32).toNat } else s

structure Look (n : Nat) where
  nBucket : Fin n
  nPos : BucketPosition
  taken : Bool

/-- The entry that the looks find. Without a result the search goes on. -/
def selectFrom {n : Nat} (s : CAddrMan) (table : Table n) : List (Look n) → Option (Option CAddrInfo)
  | [] => some none
  | look :: looks =>
    match table look.nBucket look.nPos with
    | none => selectFrom s table looks
    | some nId => do
      let info ← s.mapInfo.lookup nId
      if look.taken then some (some info) else selectFrom s table looks

structure SelectDraws where
  tried : Bool
  triedLooks : List (Look ADDRMAN_TRIED_BUCKET_COUNT)
  newLooks : List (Look ADDRMAN_NEW_BUCKET_COUNT)

/-- The inner result is `none` for the default entry too. -/
def select_ (newOnly : Bool) (draws : SelectDraws) : Option (Option CAddrInfo) :=
  if s.vRandom.isEmpty then some none
  else if newOnly && decide (s.nNew = 0) then some none
  else if !newOnly && (decide (s.nTried > 0) && (decide (s.nNew = 0) || draws.tried)) then s.selectFrom s.vvTried draws.triedLooks
  else s.selectFrom s.vvNew draws.newLooks

/-- The loop of `GetAddr_` from position `n` on: a random number and a time at each position. -/
def getAddrFrom (nNodes : Nat) (draw : Nat → Nat) (nNow : Nat → Int) :
    (left n : Nat) → CAddrMan → List CAddrInfo → Option (CAddrMan × List CAddrInfo)
  | 0, _, s, vAddr => some (s, vAddr)
  | left + 1, n, s, vAddr =>
    if vAddr.length ≥ nNodes then some (s, vAddr)
    else do
      let s ← s.swapRandom n (draw n % (s.vRandom.length - n) + n)
      let nId ← s.vRandom[n]?
      let ai ← s.mapInfo.lookup nId
      if ai.isTerrible (nNow n) then getAddrFrom nNodes draw nNow left (n + 1) s vAddr
      else getAddrFrom nNodes draw nNow left (n + 1) s (vAddr ++ [ai])

def getAddr_ (draw : Nat → Nat) (nNow : Nat → Int) : Option (CAddrMan × List CAddrInfo) :=
  getAddrFrom (min (ADDRMAN_GETADDR_MAX_PCT * s.vRandom.length / 100) ADDRMAN_GETADDR_MAX) draw nNow s.vRandom.length 0 s []

end CAddrMan

end SchillingCoin.Net
