import SchillingCoin.Lib.StdMap
import SchillingCoin.Coins.Stored

/-!
A stack of coins caches over the coin database, after `CCoinsViewCache` and `CCoinsModifier` in
`coins.cpp` and `CCoinsViewDB` in `txdb.cpp`. The caches are listed from the top of the stack down.
A failed `assert` is `none`.
-/

namespace SchillingCoin

structure CCoinsCacheEntry where
  coins : CCoins := {}
  dirty : Bool := false
  fresh : Bool := false
  deriving DecidableEq, Repr

abbrev CCoinsMap := StdMap uint256 CCoinsCacheEntry

/-- The coin database: the bytes stored for each transaction. -/
structure CCoinsViewDB where
  keys : PubKeys
  db : StdMap uint256 (List UInt8) := ∅
  hashBestChain : uint256 := 0

structure CCoinsViewCache where
  hasModifier : Bool := false
  hashBlock : uint256 := 0
  cacheCoins : CCoinsMap := ∅

namespace CCoinsViewDB

variable (base : CCoinsViewDB) (txid : uint256)

/-- A value that cannot be read is a missing one, and what follows the coins in it is not looked at. -/
def getCoins : Option CCoins := do
  let bytes ← base.db.lookup txid
  let (coins, _) ← (CCoins.unserialize base.keys bytes).toOption
  return coins

def batchWriteCoins (coins : CCoins) : Option CCoinsViewDB :=
  if coins.isPruned then some { base with db := base.db.erase txid }
  else do
    let writes ← coins.serialize base.keys
    return { base with db := base.db.insert txid writes.bytes }

def batchWriteEntry (entry : CCoinsCacheEntry) : Option CCoinsViewDB :=
  if entry.dirty then base.batchWriteCoins txid entry.coins else some base

def batchWrite (mapCoins : CCoinsMap) (hashBlock : uint256) : Option CCoinsViewDB := do
  let base ← mapCoins.entries.foldlM (fun base e => base.batchWriteEntry e.1 e.2) base
  return if hashBlock = 0 then base else { base with hashBestChain := hashBlock }

end CCoinsViewDB

namespace CCoinsViewCache

variable (cache : CCoinsViewCache) (txid : uint256) (entry : CCoinsCacheEntry)

def find : Option CCoinsCacheEntry := cache.cacheCoins.lookup txid

def put : CCoinsViewCache :=
  { cache with cacheCoins := cache.cacheCoins.insert txid entry }

def drop : CCoinsViewCache :=
  { cache with cacheCoins := cache.cacheCoins.erase txid }

def batchWriteEntry : Option CCoinsViewCache :=
  if entry.dirty then
    match cache.find txid with
    | none =>
      if !entry.coins.isPruned then
        if entry.fresh then some (cache.put txid { coins := entry.coins, dirty := true, fresh := true })
        else none
      else some cache
    | some us =>
      if us.fresh && entry.coins.isPruned then some (cache.drop txid)
      else some (cache.put txid { us with coins := entry.coins, dirty := true })
  else some cache

def batchWrite (mapCoins : CCoinsMap) (hashBlock : uint256) :
    Option CCoinsViewCache := do
  if cache.hasModifier then none
  else
    let cache ← mapCoins.entries.foldlM (fun cache e => cache.batchWriteEntry e.1 e.2) cache
    return { cache with hashBlock }

/-- `FetchCoins` after a miss, with the answer of the view below. -/
def fill : Option CCoins → CCoinsViewCache
  | none => cache
  | some coins => cache.put txid { coins, fresh := coins.isPruned }

/-- `ModifyCoins` for a key without entry, with the answer of the view below. -/
def freshEntry : Option CCoins → CCoinsCacheEntry
  | none => { coins := {}, fresh := true }
  | some coins => { coins, fresh := coins.isPruned }

/-- The destructor of `CCoinsModifier`, run on the entry it refers to. -/
def releaseModifier : Option CCoinsViewCache :=
  if !cache.hasModifier then none
  else
    let cache := { cache with hasModifier := false }
    let entry := { entry with coins := entry.coins.cleanup }
    if entry.fresh && entry.coins.isPruned then some (cache.drop txid) else some (cache.put txid entry)

end CCoinsViewCache

structure CoinsStack where
  caches : List CCoinsViewCache := []
  base : CCoinsViewDB

namespace CoinsStack

/-- `FetchCoins` of the topmost view. A miss asks the view below through its `GetCoins`, which
fetches in turn, so a lookup can fill every cache. -/
def fetchCoins (base : CCoinsViewDB) (txid : uint256) :
    List CCoinsViewCache → Option CCoins × List CCoinsViewCache
  | [] => (base.getCoins txid, [])
  | cache :: parents =>
    match cache.find txid with
    | some entry => (some entry.coins, cache :: parents)
    | none =>
      let below := fetchCoins base txid parents
      (below.1, cache.fill txid below.1 :: below.2)

variable (s : CoinsStack) (txid : uint256)

def getCoins : Option CCoins × CoinsStack :=
  let found := fetchCoins s.base txid s.caches
  (found.1, { s with caches := found.2 })

def accessCoins : Option CCoins × CoinsStack := s.getCoins txid

def haveCoins : Bool × CoinsStack :=
  let found := s.getCoins txid
  (found.1.any fun coins => !coins.vout.isEmpty, found.2)

/-- `ModifyCoins` of the topmost cache: the entry to modify, and the caches while it is modified. -/
def modifyCoins (base : CCoinsViewDB) (txid : uint256) (cache : CCoinsViewCache)
    (parents : List CCoinsViewCache) : Option (CCoinsCacheEntry × CCoinsViewCache × List CCoinsViewCache) :=
  if cache.hasModifier then none
  else
    let cache' := { cache with hasModifier := true }
    match cache.find txid with
    | some entry => some ({ entry with dirty := true }, cache', parents)
    | none =>
      let below := fetchCoins base txid parents
      some ({ CCoinsViewCache.freshEntry below.1 with dirty := true }, cache', below.2)

/-- `ModifyCoins`, a change of the entry, and the destructor of the modifier. The entry before the
change is returned. -/
def modify (change : CCoins → CCoins) : Option (Option CCoins × CoinsStack) :=
  match s.caches with
  | [] => some (none, s)
  | cache :: parents => do
    let (entry, cache, parents) ← modifyCoins s.base txid cache parents
    let cache ← cache.releaseModifier txid { entry with coins := change entry.coins }
    return (some entry.coins, { s with caches := cache :: parents })

/-- `Flush`: the topmost cache is written to the view below it and cleared. -/
def flush : Option CoinsStack :=
  match s.caches with
  | [] => some s
  | [cache] => do
    let base ← s.base.batchWrite cache.cacheCoins cache.hashBlock
    return { base, caches := [{ cache with cacheCoins := ∅ }] }
  | cache :: parent :: parents => do
    let parent ← parent.batchWrite cache.cacheCoins cache.hashBlock
    return { s with caches := { cache with cacheCoins := ∅ } :: parent :: parents }

def discard : Option CoinsStack :=
  match s.caches with
  | [] => some s
  | cache :: parents => if cache.hasModifier then none else some { s with caches := parents }

def cover : CoinsStack := { s with caches := {} :: s.caches }

def flushAll : (depth : Nat) → CoinsStack → Option CoinsStack
  | 0, s => some s
  | depth + 1, s => do
    let s ← s.flush
    let s ← s.discard
    flushAll depth s

end CoinsStack

inductive CoinsOp where
  | getCoins (txid : uint256)
  | accessCoins (txid : uint256)
  | haveCoins (txid : uint256)
  | modify (txid : uint256) (change : CCoins → CCoins)
  | flush
  | flushPop
  | discard
  | cover

inductive CoinsAnswer where
  | coins (found : Option CCoins)
  | have (present : Bool)
  | done

namespace CoinsStack

/-- One operation on the topmost cache. Without a cache only `cover` does anything. -/
def step (s : CoinsStack) (op : CoinsOp) : Option (CoinsAnswer × CoinsStack) :=
  match op with
  | .getCoins txid => let found := s.getCoins txid; some (.coins found.1, found.2)
  | .accessCoins txid => let found := s.accessCoins txid; some (.coins found.1, found.2)
  | .haveCoins txid => let found := s.haveCoins txid; some (.have found.1, found.2)
  | .modify txid change => (s.modify txid change).map fun r => (.coins r.1, r.2)
  | .flush => s.flush.map fun s => (.done, s)
  | .flushPop => (s.flush.bind discard).map fun s => (.done, s)
  | .discard => s.discard.map fun s => (.done, s)
  | .cover => some (.done, s.cover)

end CoinsStack

end SchillingCoin
