import SchillingCoin.Primitives.Transaction

/-!
The block index, after `CBlockIndex` in `chain.h`. Pointers are the hashes under which
`mapBlockIndex` holds the entries.
-/

namespace SchillingCoin

structure CBlockIndex where
  hash : uint256
  pprev : Option uint256 := none
  nHeight : Nat
  nMoneySupply : Int := 0
  nTime : Nat := 0
  vStakeModifier : List UInt8 := []
  /-- The flag `BLOCK_STAKE_MODIFIER`. -/
  generatedStakeModifier : Bool := false
  deriving DecidableEq, Repr

namespace CBlockIndex

def getBlockHash (pindex : CBlockIndex) : uint256 := pindex.hash

end CBlockIndex

structure CChain where
  vChain : List CBlockIndex
  heights : ∀ (nHeight : Nat) (pindex : CBlockIndex), vChain[nHeight]? = some pindex → pindex.nHeight = nHeight

namespace CChain

theorem heights_nil : ∀ (nHeight : Nat) (pindex : CBlockIndex), [][nHeight]? = some pindex → pindex.nHeight = nHeight := nofun

def contains (c : CChain) (pindex : CBlockIndex) : Bool := c.vChain[pindex.nHeight]? == some pindex

def above (c : CChain) (nHeight : Nat) : List CBlockIndex := c.vChain.drop (nHeight + 1)

end CChain

end SchillingCoin
