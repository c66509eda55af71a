import SchillingCoin.Lib.StdMap
import SchillingCoin.Coins.CCoins
import SchillingCoin.Consensus.Params

/-!
The memory pool and its two indexes, after `CTxMemPool` in `txmempool.h` and `txmempool.cpp`. The
fee estimator, the priority deltas and the update counter are left out: nothing here reads them.
-/

namespace SchillingCoin

structure CTxMemPoolEntry where
  tx : CTransaction
  nTxSize : Nat
  deriving DecidableEq, Repr

structure CInPoint where
  ptx : CTransaction
  n : Nat
  deriving DecidableEq, Repr

structure CTxMemPool where
  mapTx : StdMap uint256 CTxMemPoolEntry := ∅
  mapNextTx : StdMap COutPoint CInPoint := ∅
  totalTxSize : BitVec 64 := 0

namespace CTxMemPool

variable (p : CTxMemPool) (hash : uint256) (tx : CTransaction)

def exists_ : Bool := (p.mapTx.lookup hash).isSome

/-- The transactions that `mapNextTx` records as spending an output of `tx`. -/
def children : List uint256 :=
  (List.range tx.vout.length).filterMap fun i => (p.mapNextTx.lookup ⟨tx.hash, i⟩).map fun it => it.ptx.hash

def addUnchecked (entry : CTxMemPoolEntry) : CTxMemPool :=
  { mapTx := p.mapTx.insert hash entry
    mapNextTx :=
      if !entry.tx.hasZerocoinSpendInputs then
        entry.tx.vin.zipIdx.foldl (fun next i => next.insert i.1.prevout ⟨entry.tx, i.2⟩) p.mapNextTx
      else p.mapNextTx
    totalTxSize := p.totalTxSize + BitVec.ofNat 64 entry.nTxSize }

/-- The part of the loop of `remove` that takes one transaction out of the three structures. -/
def removeEntry (entry : CTxMemPoolEntry) : CTxMemPool :=
  { mapTx := p.mapTx.erase hash
    mapNextTx := entry.tx.vin.foldl (fun next txin => next.erase txin.prevout) p.mapNextTx
    totalTxSize := p.totalTxSize - BitVec.ofNat 64 entry.nTxSize }

/-- The loop of `remove` with the transactions it removed. Queued hashes without an entry are passed
over, and every round takes an entry out of `mapTx`, so as many rounds as entries are enough. -/
def removeLoop (fRecursive : Bool) : Nat → List uint256 → CTxMemPool → CTxMemPool × List CTransaction
  | 0, _, p => (p, [])
  | rounds + 1, txToRemove, p =>
    match txToRemove.dropWhile fun hash => !p.exists_ hash with
    | [] => (p, [])
    | hash :: rest =>
      match p.mapTx.lookup hash with
      | none => (p, [])
      | some entry =>
        let q := removeLoop fRecursive rounds (rest ++ if fRecursive then p.children entry.tx else []) (p.removeEntry hash entry)
        (q.1, entry.tx :: q.2)

/-- A recursive removal of a transaction outside the pool starts from its children. -/
def removalQueue (origTx : CTransaction) (fRecursive : Bool) : List uint256 :=
  origTx.hash :: if fRecursive && !p.exists_ origTx.hash then p.children origTx else []

def remove (origTx : CTransaction) (fRecursive : Bool) : CTxMemPool × List CTransaction :=
  removeLoop fRecursive p.mapTx.entries.length (p.removalQueue origTx fRecursive) p

def removeAll (txs : List CTransaction) : CTxMemPool :=
  txs.foldl (fun p tx => (p.remove tx true).1) p

/-- The input takes nothing from the pool, and its coins are missing or an immature coinbase or
coinstake. Heights are subtracted as 32-bit unsigned numbers. -/
def spendsImmature (network : Network) (accessCoins : uint256 → Option CCoins) (nMemPoolHeight : Nat) (txin : CTxIn) : Bool :=
  !p.exists_ txin.prevout.hash &&
    match accessCoins txin.prevout.hash with
    | none => true
    | some coins => (coins.fCoinBase || coins.fCoinStake) &&
        decide ((nMemPoolHeight - coins.nHeight) % 2 ^ 32 < network.consensus.nCoinbaseMaturity)

def removeCoinbaseSpends (network : Network) (accessCoins : uint256 → Option CCoins) (nMemPoolHeight : Nat) : CTxMemPool :=
  p.removeAll ((p.mapTx.entries.map fun e => e.2.tx).filter fun tx =>
    tx.vin.any (p.spendsImmature network accessCoins nMemPoolHeight))

/-- One pass of the loop of `removeConflicts`. Transactions are compared by their hash. -/
def removeConflict (r : CTxMemPool × List CTransaction) (txin : CTxIn) : CTxMemPool × List CTransaction :=
  match r.1.mapNextTx.lookup txin.prevout with
  | none => r
  | some it =>
    if it.ptx.hash ≠ tx.hash then
      let q := r.1.remove it.ptx true
      (q.1, r.2 ++ q.2)
    else r

def removeConflicts : CTxMemPool × List CTransaction :=
  tx.vin.foldl (removeConflict tx) (p, [])

/-- One pass of the loop of `removeForBlock`, with the conflicts so far. -/
def removeBlockTx (r : CTxMemPool × List CTransaction) (tx : CTransaction) : CTxMemPool × List CTransaction :=
  let q := (r.1.remove tx false).1.removeConflicts tx
  (q.1, r.2 ++ q.2)

def removeForBlock (vtx : List CTransaction) : CTxMemPool × List CTransaction :=
  vtx.foldl removeBlockTx (p, [])

def clear (_ : CTxMemPool) : CTxMemPool := {}

def Holds : Prop := ∃ entry, p.mapTx.lookup tx.hash = some entry ∧ entry.tx = tx

def SpendsAt (i : Nat) (o : COutPoint) : Prop := (tx.vin[i]?).map CTxIn.prevout = some o

theorem exists_iff {p : CTxMemPool} {hash : uint256} : p.exists_ hash = true ↔ ∃ entry, p.mapTx.lookup hash = some entry := by
  rw [exists_, Option.isSome_iff_exists]

theorem mem_prevouts_iff {tx : CTransaction} {o : COutPoint} : o ∈ tx.prevouts ↔ ∃ i, SpendsAt tx i o := by
  simp only [SpendsAt, CTransaction.prevouts, List.mem_iff_getElem?, List.getElem?_map]

theorem mem_children {p : CTxMemPool} {tx : CTransaction} {hash : uint256} :
    hash ∈ p.children tx ↔ ∃ i < tx.vout.length, ∃ it, p.mapNextTx.lookup ⟨tx.hash, i⟩ = some it ∧ it.ptx.hash = hash := by
  simp [children]

end CTxMemPool

end SchillingCoin
