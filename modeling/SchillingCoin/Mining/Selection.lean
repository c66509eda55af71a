import SchillingCoin.Lib.Dependers
import SchillingCoin.Mempool.ChainUpdates
import SchillingCoin.Mining.BlockTemplate

/-!
The selection of transactions in `CreateNewBlock`: which transactions of the memory pool enter the queue at once, which wait for others,
and the loop over the queue. The priority queue gives its transactions in an arbitrary order. Priorities are doubles, which are read as
data together with the fee rates.
-/

namespace SchillingCoin

/-- `HaveCoins` of a cache: an entry without outputs does not count. -/
def CoinsView.haveCoins (v : CoinsView) (txid : uint256) : Bool := !(v.coinsAt txid).vout.isEmpty

structure TxPriority (Double : Type) where
  dPriority : Double
  feeRate : Int
  tx : CTransaction

structure SelectContext (Double : Type) where
  chain : ChainState
  checks : Checks
  nHeight : Nat
  getAdjustedTime : Int
  /-- The priority and the fee rate of a transaction, with the deltas of the pool. -/
  dPriority : CTransaction → Double
  feeRate : CTransaction → Int
  /-- `ApplyDeltas` raises a priority of zero. -/
  priorityRaised : uint256 → Bool
  nFeeDelta : uint256 → Int
  allowFree : Double → Bool
  minRelayTxFee : Int
  blockMaxSizeArg : Int
  blockPrioritySizeArg : Int
  blockMinSizeArg : Int

structure BlockEntry where
  tx : CTransaction
  nTxFees : Int
  nTxSigOps : Nat
  deriving DecidableEq, Repr

/-- The orphans with the pointers to them, and `vecPriority` as what is ready. -/
abbrev SelectQueue (Double : Type) := Dependers uint256 (TxPriority Double)

structure BlockSelection (Double : Type) where
  queue : SelectQueue Double
  view : CoinsView
  nBlockSize : Nat := 1000
  nBlockSigOps : Nat := 100
  nFees : Int := 0
  fSortedByFee : Bool
  entries : List BlockEntry := []

inductive LoopTest where
  | size
  | legacySigOps
  | free
  | haveInputs
  | sigOps
  | checkInputs
  deriving DecidableEq, Repr

namespace SelectContext

variable {Double : Type} (ctx : SelectContext Double)

def nBlockMaxSize : Nat := blockMaxSize ctx.blockMaxSizeArg

def nBlockPrioritySize : Nat := min ctx.nBlockMaxSize (ctx.blockPrioritySizeArg % 2 ^ 32).toNat

def nBlockMinSize : Nat := min ctx.nBlockMaxSize (ctx.blockMinSizeArg % 2 ^ 32).toNat

variable (tx : CTransaction) (view : CoinsView) (pool : CTxMemPool) (s : BlockSelection Double)
  (e : TxPriority Double)

/-- `IsFinalTx` at the height of the block and the adjusted time. -/
def isFinalTx : Bool :=
  tx.nLockTime == 0 ||
    decide ((tx.nLockTime : Int) < if (tx.nLockTime : Int) < LOCKTIME_THRESHOLD then (ctx.nHeight : Int) else ctx.getAdjustedTime) ||
    tx.vin.all CTxIn.isFinal

def priority : TxPriority Double := ⟨ctx.dPriority tx, ctx.feeRate tx, tx⟩

/-- The loop over the inputs of a transaction, which is at the position `porphan` once it waits. An input that is nowhere ends it and takes
the last orphan back. -/
def readInputs (view : CoinsView) (pool : CTxMemPool) (tx : CTransaction) :
    List CTxIn → (porphan : Option Nat) → SelectQueue Double → Except (SelectQueue Double) (SelectQueue Double × Option Nat)
  | [], porphan, q => .ok (q, porphan)
  | txin :: rest, porphan, q =>
    if view.haveCoins txin.prevout.hash then readInputs view pool tx rest porphan q
    else if !pool.exists_ txin.prevout.hash then
      .error (if porphan.isSome then { q with waiters := q.waiters.dropLast } else q)
    else match porphan with
      | some i => readInputs view pool tx rest (some i) (q.need i txin.prevout.hash)
      | none =>
        let pushed : SelectQueue Double := { q with waiters := q.waiters ++ [{ item := ctx.priority tx, needs := ∅ }] }
        readInputs view pool tx rest (some q.waiters.length) (pushed.need q.waiters.length txin.prevout.hash)

/-- The transactions that the first loop goes on with. -/
def considers : Bool :=
  !(tx.isCoinBase || tx.isCoinStake || !ctx.isFinalTx tx) &&
    !(ctx.chain.isSporkActive .zerocoinMaintenanceMode && tx.containsZerocoins)

def enqueue (q : SelectQueue Double) (tx : CTransaction) : SelectQueue Double :=
  if !ctx.considers tx then q
  else match ctx.readInputs view pool tx tx.vin none q with
    | .error q => q
    | .ok (q, some _) => q
    | .ok (q, none) => { q with ready := q.ready ++ [ctx.priority tx] }

def getP2SHSigOpCount (tx : CTransaction) : Option Nat :=
  if tx.isCoinBase || tx.hasZerocoinSpendInputs then some 0
  else (tx.vin.mapM view.getOutputFor).map fun spent => ((tx.vin.zip spent).map fun i =>
    if CScript.isPayToScriptHash i.2.scriptPubKey then CScript.getSigOpCountFor i.2.scriptPubKey i.1.scriptSig else 0).sum

def getValueIn (view : CoinsView) (tx : CTransaction) : Option Int :=
  if tx.hasZerocoinSpendInputs then some (ctx.checks.zerocoinSpent tx) else view.getValueIn tx

/-- `CheckInputs` under the mandatory flags; `none` is a failed assertion. -/
def checkInputs (view : CoinsView) (tx : CTransaction) : Option Bool :=
  match SchillingCoin.checkInputs ctx.chain ctx.checks view tx true false with
  | .ok () => some true
  | .error (.abort _) => none
  | .error _ => some false

def skipsFree : Bool :=
  s.fSortedByFee && !ctx.priorityRaised e.tx.hash && decide (ctx.nFeeDelta e.tx.hash ≤ 0) && decide (e.feeRate < ctx.minRelayTxFee) &&
    decide (s.nBlockSize + e.tx.getSerializeSize ≥ ctx.nBlockMinSize)

def sortByFee : BlockSelection Double :=
  { s with fSortedByFee := s.fSortedByFee || decide (s.nBlockSize + e.tx.getSerializeSize ≥ ctx.nBlockPrioritySize) ||
      !ctx.allowFree e.dPriority }

def append (entry : BlockEntry) (view : CoinsView) : BlockSelection Double :=
  { s with
    queue := s.queue.wake entry.tx.hash
    view
    nBlockSize := s.nBlockSize + entry.tx.getSerializeSize
    nBlockSigOps := s.nBlockSigOps + entry.nTxSigOps
    nFees := int64 (s.nFees + entry.nTxFees)
    entries := s.entries ++ [entry] }

def tryAppend (tx : CTransaction) : Option (BlockSelection Double × Option LoopTest) := do
  let nValueIn ← ctx.getValueIn s.view tx
  let nValueOut ← tx.getValueOut
  let nP2SHSigOps ← getP2SHSigOpCount s.view tx
  let entry : BlockEntry :=
    { tx, nTxFees := int64 (nValueIn - nValueOut), nTxSigOps := tx.getLegacySigOpCount + nP2SHSigOps }
  if s.nBlockSigOps + entry.nTxSigOps ≥ MAX_BLOCK_SIGOPS_CURRENT then some (s, some .sigOps)
  else (ctx.checkInputs s.view tx).bind fun valid =>
    if !valid then some (s, some .checkInputs)
    else (s.view.updateCoins tx ctx.nHeight).map fun updated => (append s entry updated.1, none)

/-- One turn of the loop for what is taken off the queue, and the test that leaves it out. `none` is a failed assertion or an exception. -/
def turn : Option (BlockSelection Double × Option LoopTest) :=
  if s.nBlockSize + e.tx.getSerializeSize ≥ ctx.nBlockMaxSize then some (s, some .size)
  else if s.nBlockSigOps + e.tx.getLegacySigOpCount ≥ MAX_BLOCK_SIGOPS_CURRENT then some (s, some .legacySigOps)
  else if ctx.skipsFree s e then some (s, some .free)
  else if !(ctx.sortByFee s e).view.haveInputs e.tx then some (ctx.sortByFee s e, some .haveInputs)
  else ctx.tryAppend (ctx.sortByFee s e) e.tx

/-- The loop, with what is taken off the queue in each turn. In a turn the queue gives the entry at an arbitrary position. -/
def loop (pick : Nat → Nat) : (rounds : Nat) → BlockSelection Double → Option (BlockSelection Double × List (CTransaction × Option LoopTest))
  | 0, s => if s.queue.ready.isEmpty then some (s, []) else none
  | rounds + 1, s =>
    match s.queue.ready[pick rounds % s.queue.ready.length]? with
    | none => some (s, [])
    | some e => do
      let rest := { s with queue := { s.queue with ready := s.queue.ready.eraseIdx (pick rounds % s.queue.ready.length) } }
      let (next, test) ← ctx.turn rest e
      let (last, turns) ← loop pick rounds next
      return (last, (e.tx, test) :: turns)

def transactions : List CTransaction := pool.mapTx.entries.map fun e => e.2.tx

def start : BlockSelection Double where
  queue := (transactions pool).foldl (ctx.enqueue view pool) {}
  view
  fSortedByFee := decide (ctx.nBlockPrioritySize = 0)

def select (pick : Nat → Nat) (view : CoinsView) (pool : CTxMemPool) :
    Option (BlockSelection Double × List (CTransaction × Option LoopTest)) :=
  ctx.loop pick (transactions pool).length (ctx.start view pool)

end SelectContext

end SchillingCoin
