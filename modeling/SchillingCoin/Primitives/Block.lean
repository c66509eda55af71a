import SchillingCoin.Primitives.Transaction

/-!
Blocks, after `primitives/block.h`. The header fields that only the proof of work and the merkle tree
depend on are represented by the hash of the block.
-/

namespace SchillingCoin

def MAX_BLOCK_SIZE_CURRENT : Nat := 2000000

structure CBlock where
  hash : uint256
  hashPrevBlock : uint256
  nTime : Nat := 0
  nBits : BitVec 32 := 0
  vtx : List CTransaction
  deriving DecidableEq, Repr

namespace CBlock

variable (block : CBlock)

def isProofOfStake : Bool :=
  match block.vtx with
  | _ :: tx :: _ => tx.isCoinStake
  | _ => false

def isProofOfWork : Bool := !block.isProofOfStake

def spentOutpoints : List COutPoint :=
  block.vtx.flatMap fun tx => if tx.spendsCoins then tx.prevouts else []

def ZerocoinFree : Prop := ∀ tx ∈ block.vtx, tx.containsZerocoins = false

end CBlock

end SchillingCoin
