import SchillingCoin.Wallet.Spends
import SchillingCoin.Masternode.MasternodeMan

/-!
The outputs of the wallet that a transaction may spend, after `AvailableCoins` of `wallet.cpp`. What the key store says of
a script, and whether a transaction is final, are parameters.
-/

namespace SchillingCoin

abbrev isminetype := UInt8

def ISMINE_NO : isminetype := 0
def ISMINE_WATCH_ONLY : isminetype := 1
def ISMINE_MULTISIG : isminetype := 2
def ISMINE_SPENDABLE : isminetype := 4
def ISMINE_COLD : isminetype := 8
def ISMINE_SPENDABLE_DELEGATED : isminetype := 16
def ISMINE_SPENDABLE_STAKEABLE : isminetype := ISMINE_SPENDABLE_DELEGATED ||| ISMINE_COLD

inductive AvailableCoinsType where
  | ALL_COINS
  | ONLY_DENOMINATED
  | ONLY_NOT15000IFMN
  | ONLY_NONDENOMINATED_NOT15000IFMN
  | ONLY_15000
  | STAKEABLE_COINS
  deriving DecidableEq, Repr

structure CCoinControl where
  destChange : CTxDestination := .noDestination
  fSplitBlock : Bool := false
  nSplitBlock : Int := 1
  fAllowOtherInputs : Bool := false
  setSelected : List COutPoint := []

def CCoinControl.hasSelected (coinControl : CCoinControl) : Bool := !coinControl.setSelected.isEmpty

structure SpendContext extends WalletContext where
  network : Network
  checkFinalTx : CTransaction → Bool
  isFinalTx : CTransaction → Bool
  isMineScript : CScript → isminetype
  hasDelegator : CTxOut → Bool
  fMasterNode : Bool
  bSpendZeroConfChange : Bool

abbrev Coin := CWalletTx × Nat

def Coin.outpoint (coin : Coin) : COutPoint := ⟨coin.1.getHash, coin.2⟩

def Coin.txOut (coin : Coin) : CTxOut := coin.1.tx.vout.getD coin.2 .null

structure CWallet.COutput where
  tx : CWalletTx
  i : Nat
  nDepth : Int
  fSpendable : Bool
  deriving DecidableEq, Repr

def CWallet.COutput.coin (out : CWallet.COutput) : Coin := (out.tx, out.i)

def obfuScationDenominations : List Int :=
  [10000 * COIN + 10000000, 1000 * COIN + 1000000, 100 * COIN + 100000, 10 * COIN + 10000, COIN + 1000, COIN / 10 + 100]

def isDenominatedAmount (nInputAmount : Int) : Bool := obfuScationDenominations.contains nInputAmount

def OBFUSCATION_COLLATERAL : Int := 10 * COIN

def isCollateralAmount (nInputAmount : Int) : Bool :=
  nInputAmount != 0 && nInputAmount.tmod OBFUSCATION_COLLATERAL == 0 && decide (nInputAmount < OBFUSCATION_COLLATERAL * 5) &&
    decide (nInputAmount > OBFUSCATION_COLLATERAL)

namespace CWalletTx

variable (ctx : SpendContext)

variable (wtx : CWalletTx)

def depthInBlocks : Int :=
  if wtx.hashUnset then 0
  else match ctx.mapBlockIndex.lookup wtx.hashBlock with
    | none => 0
    | some pindex =>
      if !ctx.chainActive.contains pindex then 0
      else (if wtx.nIndex = -1 then -1 else 1) * ((ctx.chainActive.vChain.length : Int) - 1 - pindex.nHeight + 1)

def getBlocksToMaturity : Int :=
  if !(wtx.tx.isCoinBase || wtx.tx.isCoinStake) then 0
  else max 0 (ctx.network.consensus.nCoinbaseMaturity + 1 - wtx.getDepthInMainChain ctx.toWalletContext)

def spendsOwn (w : CWallet) (wtx : CWalletTx) : Bool :=
  wtx.tx.vin.all fun txin => (w.mapWallet.lookup txin.prevout.hash).any fun parent =>
    ctx.isMineScript (parent.tx.vout.getD txin.prevout.n .null).scriptPubKey == ISMINE_SPENDABLE

def isTrusted (w : CWallet) (wtx : CWalletTx) : Bool :=
  let depth := wtx.getDepthAndMempool ctx.toWalletContext
  if !ctx.isFinalTx wtx.tx then false
  else if depth.2 then false
  else if depth.1 ≥ 1 then true
  else if depth.1 < 0 then false
  else if !ctx.bSpendZeroConfChange || !ctx.isFromMe wtx.tx then false
  else wtx.spendsOwn ctx w

theorem depth_of_isTrusted {ctx : SpendContext} {w : CWallet} {wtx : CWalletTx} (trusted : wtx.isTrusted ctx w = true) :
    0 ≤ wtx.getDepthInMainChain ctx.toWalletContext := by
  have depth : (wtx.getDepthAndMempool ctx.toWalletContext).1 = wtx.getDepthInMainChain ctx.toWalletContext := rfl
  unfold isTrusted at trusted
  simp only [depth] at trusted
  split at trusted
  · cases trusted
  · split at trusted
    · cases trusted
    · split at trusted
      · omega
      · split at trusted
        · cases trusted
        · omega

end CWalletTx

def checkTXAvailability (ctx : SpendContext) (w : CWallet) (pcoin : CWalletTx) (fOnlyConfirmed fUseIX : Bool) : Option Int :=
  let nDepth := pcoin.depthInBlocks ctx
  if !ctx.checkFinalTx pcoin.tx then none
  else if fOnlyConfirmed && !pcoin.isTrusted ctx w then none
  else if pcoin.getBlocksToMaturity ctx > 0 then none
  else if fUseIX && decide (nDepth < 6) then none
  else if decide (nDepth = 0) && !ctx.inMempool pcoin.getHash then none
  else some nDepth

theorem isTrusted_of_available (available : checkTXAvailability ctx w pcoin true fUseIX = some nDepth) :
    pcoin.isTrusted ctx w = true := by
  unfold checkTXAvailability at available
  split at available
  · cases available
  · split at available
    · cases available
    · rename_i trusted
      simpa using trusted

structure CoinFilter where
  fOnlyConfirmed : Bool
  coinControl : Option CCoinControl
  fIncludeZeroValue : Bool
  nCoinType : AvailableCoinsType
  fUseIX : Bool
  nWatchonlyConfig : Int
  fIncludeColdStaking : Bool
  fIncludeDelegated : Bool

namespace CWallet

variable (ctx : SpendContext) (f : CoinFilter) (w : CWallet)

def mnCollateral : Int := getMNCollateral ((ctx.chainActive.vChain.length : Int) - 1) * COIN

def coinFound (nValue : Int) : Bool :=
  match f.nCoinType with
  | .ONLY_DENOMINATED => isDenominatedAmount nValue
  | .ONLY_NOT15000IFMN => !(ctx.fMasterNode && nValue == mnCollateral ctx)
  | .ONLY_NONDENOMINATED_NOT15000IFMN =>
    !isCollateralAmount nValue && !isDenominatedAmount nValue && !(ctx.fMasterNode && nValue == mnCollateral ctx)
  | .ONLY_15000 => nValue == mnCollateral ctx
  | _ => true

def fCoinsSelected : Bool := f.coinControl.any CCoinControl.hasSelected

def includeDelegated : Bool := f.fIncludeDelegated || fCoinsSelected f

variable (wtxid : uint256) (pcoin : CWalletTx)

/-- The tests that an output is skipped by, in the order of the source. -/
def coinSkipped (i : Nat) (out : CTxOut) : Bool :=
  let mine := ctx.isMineScript out.scriptPubKey
  !coinFound ctx f out.nValue ||
  (f.nCoinType == .STAKEABLE_COINS && out.isZerocoinMint) ||
  w.isSpent ctx.toWalletContext ⟨wtxid, i⟩ ||
  mine == ISMINE_NO ||
  ((mine == ISMINE_MULTISIG || mine == ISMINE_SPENDABLE) && f.nWatchonlyConfig == 2) ||
  (mine == ISMINE_WATCH_ONLY && f.nWatchonlyConfig == 1) ||
  (w.setLockedCoins.contains ⟨wtxid, i⟩ && f.nCoinType != .ONLY_15000) ||
  (decide (out.nValue ≤ 0) && !f.fIncludeZeroValue) ||
  f.coinControl.any (fun c => c.hasSelected && !c.fAllowOtherInputs && !c.setSelected.contains ⟨wtxid, i⟩) ||
  (mine == ISMINE_COLD && (!f.fIncludeColdStaking || !ctx.hasDelegator out)) ||
  (mine == ISMINE_SPENDABLE_DELEGATED && !includeDelegated f) ||
  (mine == ISMINE_SPENDABLE_STAKEABLE && !f.fIncludeColdStaking && !includeDelegated f)

def fIsValid (mine : isminetype) : Bool :=
  (mine &&& ISMINE_SPENDABLE) != ISMINE_NO ||
    (mine &&& (ISMINE_MULTISIG ||| (if f.fIncludeColdStaking then ISMINE_COLD else ISMINE_NO) |||
      (if includeDelegated f then ISMINE_SPENDABLE_DELEGATED else ISMINE_NO))) != ISMINE_NO

def availableOutput (nDepth : Int) (i : Nat) : Option COutput :=
  let out := pcoin.tx.vout.getD i .null
  if coinSkipped ctx f w wtxid i out then none
  else some { tx := pcoin, i := i, nDepth := nDepth, fSpendable := fIsValid f (ctx.isMineScript out.scriptPubKey) }

def availableOutputs : List COutput :=
  match checkTXAvailability ctx w pcoin f.fOnlyConfirmed f.fUseIX with
  | none => []
  | some nDepth =>
    if f.nCoinType = .STAKEABLE_COINS ∧ nDepth < ctx.network.consensus.nStakeMinDepth then []
    else (List.range pcoin.tx.vout.length).filterMap (availableOutput ctx f w wtxid pcoin nDepth)

def availableCoins : List COutput := w.mapWallet.entries.flatMap fun entry => availableOutputs ctx f w entry.1 entry.2

variable {ctx f w}

theorem mem_availableOutputs {wtxid : uint256} {pcoin : CWalletTx} (member : out ∈ availableOutputs ctx f w wtxid pcoin) :
    out.tx = pcoin ∧ out.i < pcoin.tx.vout.length ∧ (checkTXAvailability ctx w pcoin f.fOnlyConfirmed f.fUseIX).isSome := by
  unfold availableOutputs at member
  split at member
  · cases member
  · rename_i nDepth available
    split at member
    · cases member
    · obtain ⟨i, inRange, isOut⟩ := List.mem_filterMap.mp member
      unfold availableOutput at isOut
      simp only at isOut
      split at isOut
      · cases isOut
      · cases isOut
        exact ⟨rfl, List.mem_range.mp inRange, by rw [available]; rfl⟩

theorem nodup_availableOutputs : ((availableOutputs ctx f w wtxid pcoin).map COutput.coin).Nodup := by
  unfold availableOutputs
  split
  · exact List.nodup_nil
  · split
    · exact List.nodup_nil
    · rename_i nDepth _ _
      rw [List.map_filterMap]
      apply List.Nodup.filterMap _ List.nodup_range
      intro i i' coin here there
      -- The position of an output is part of its coin.
      have position : ∀ j, coin ∈ (availableOutput ctx f w wtxid pcoin nDepth j).map COutput.coin → coin.2 = j := by
        intro j found
        unfold availableOutput at found
        simp only at found
        split at found
        · cases found
        · cases found
          rfl
      exact (position i here).symm.trans (position i' there)

theorem held_of_available (member : out ∈ w.availableCoins ctx f) :
    (∃ wtxid, w.mapWallet.lookup wtxid = some out.tx) ∧ out.i < out.tx.tx.vout.length ∧
      (checkTXAvailability ctx w out.tx f.fOnlyConfirmed f.fUseIX).isSome := by
  unfold availableCoins at member
  obtain ⟨entry, listed, here⟩ := List.mem_flatMap.mp member
  obtain ⟨same, inside, available⟩ := mem_availableOutputs here
  rw [same]
  exact ⟨⟨entry.1, StdMap.mem_entries_iff.mp listed⟩, inside, available⟩

end CWallet

structure KeyedWallet extends CWallet where
  keyed : ∀ hash wtx, mapWallet.lookup hash = some wtx → wtx.getHash = hash

namespace KeyedWallet

variable {ctx : SpendContext} {f : CoinFilter} (w : KeyedWallet)

theorem nodup_availableCoins : ((w.availableCoins ctx f).map CWallet.COutput.coin).Nodup := by
  unfold CWallet.availableCoins
  rw [List.map_flatMap, List.nodup_flatMap]
  refine ⟨fun entry _ => CWallet.nodup_availableOutputs entry.1 entry.2, ?_⟩
  have keys : w.mapWallet.entries.Pairwise fun e e' => e.1 ≠ e'.1 := List.nodupKeys_iff_pairwise.mp w.mapWallet.nodupKeys
  apply List.Pairwise.imp_of_mem _ keys
  intro e e' listed listed' apart coin here there
  obtain ⟨out, member, rfl⟩ := List.mem_map.mp here
  obtain ⟨out', member', same⟩ := List.mem_map.mp there
  have first := (CWallet.mem_availableOutputs member).1
  have second := (CWallet.mem_availableOutputs member').1
  have key := w.keyed _ _ (StdMap.mem_entries_iff.mp listed)
  have key' := w.keyed _ _ (StdMap.mem_entries_iff.mp listed')
  have sameTx : out'.tx = out.tx := congrArg Prod.fst same
  rw [first, second] at sameTx
  exact apart (key.symm.trans ((congrArg CWalletTx.getHash sameTx.symm).trans key'))

theorem outpoint_injective (member : out ∈ w.availableCoins ctx f) (member' : out' ∈ w.availableCoins ctx f)
    (same : out.coin.outpoint = out'.coin.outpoint) : out.coin = out'.coin := by
  obtain ⟨⟨wtxid, found⟩, _⟩ := CWallet.held_of_available member
  obtain ⟨⟨wtxid', found'⟩, _⟩ := CWallet.held_of_available member'
  obtain ⟨sameHash, samePosition⟩ := COutPoint.mk.injEq .. ▸ same
  have ids : wtxid = wtxid' := ((w.keyed _ _ found).symm.trans sameHash).trans (w.keyed _ _ found')
  rw [ids, found'] at found
  have sameTx : out.tx = out'.tx := (Option.some.inj found).symm
  exact Prod.ext sameTx samePosition

end KeyedWallet

end SchillingCoin
