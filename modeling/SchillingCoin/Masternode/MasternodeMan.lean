import SchillingCoin.Mempool.Accept
import SchillingCoin.Script.Destination

/-!
The list of masternodes, after `masternode.cpp` and `masternodeman.cpp`: the checks of an entry, the messages `mnb`,
`mnp` and `dseg`, and the maintenance of the list. Misbehaviour, relaying and what is asked of peers are left out.
-/

namespace SchillingCoin

def MASTERNODE_MIN_CONFIRMATIONS : Int := 15
def MASTERNODE_MIN_MNP_SECONDS : Int := 10 * 60
def MASTERNODE_MIN_MNB_SECONDS : Int := 5 * 60
def MASTERNODE_EXPIRATION_SECONDS : Int := 120 * 60
def MASTERNODE_REMOVAL_SECONDS : Int := 130 * 60

structure CService where
  ip : List UInt8 := []
  port : Nat := 0
  deriving DecidableEq, Repr

inductive MasternodeState where
  | preEnabled
  | enabled
  | expired
  | outpointSpent
  | remove
  | watchdogExpired
  | poseBan
  | vinSpent
  | posError
  | missing
  deriving DecidableEq, Repr

structure CMasternodePing where
  vin : CTxIn := { prevout := .null }
  blockHash : uint256 := 0
  sigTime : Int := 0
  vchSig : valtype := []
  nMessVersion : MessageVersion := .hash
  deriving DecidableEq, Repr

/-- An entry of the list, and a broadcast. The time of the last check is left out: it stays with the place in the
list when entries are moved. -/
structure CMasternode where
  vin : CTxIn
  addr : CService
  pubKeyCollateralAddress : CPubKey
  pubKeyMasternode : CPubKey
  vchSig : valtype := []
  sigTime : Int
  protocolVersion : Int
  activeState : MasternodeState := .enabled
  lastPing : CMasternodePing := {}
  nMessVersion : MessageVersion := .hash
  deriving DecidableEq, Repr

inductive SignedMessage where
  | hash (h : uint256)
  | text (addr : CService) (sigTime : Int) (pubKeyCollateralAddress pubKeyMasternode : CPubKey) (protocolVersion : Int)
  deriving DecidableEq, Repr

structure MasternodeCrypto where
  getID : CPubKey → CKeyID
  /-- `CMasternodeBroadcast::GetHash`, over the time and the collateral key. -/
  broadcastHash : Int → CPubKey → uint256
  /-- `CMasternodePing::GetHash`. The block is hashed in the new version only. -/
  pingHash : CTxIn → Option uint256 → Int → uint256
  /-- `CMasternode::GetSignatureHash`. -/
  signatureHash : MessageVersion → CService → Int → CPubKey → CPubKey → Int → uint256
  verifyMessage : CPubKey → valtype → SignedMessage → Bool
  checkPing : CPubKey → CMasternodePing → Bool
  txHash : List CTxIn → List CTxOut → uint256
  /-- `obfuScationPool.collateralPubKey`. -/
  collateralPubKey : CScript

structure MasternodeManContext where
  chain : ChainState
  chainActive : CChain
  checks : Checks
  policy : MempoolPolicy
  /-- `pcoinsTip`. -/
  base : CoinsView
  mempool : CTxMemPool := {}
  fLiteMode : Bool := false
  isBlockchainSynced : Bool := true
  shutdownRequested : Bool := false
  getTime : Int
  getAdjustedTime : Int
  /-- `masternodePayments.GetMinMasternodePaymentsProto()`. -/
  minProto : Int
  /-- Whether `cs_main` is free. -/
  lockMain : Bool := true
  /-- Whether an entry was checked within `MASTERNODE_CHECK_SECONDS`. -/
  checkedRecently : CMasternode → Bool := fun _ => false
  getTransaction : uint256 → Option (CTransaction × uint256)
  fMasterNode : Bool := false
  /-- `activeMasternode.vin.prevout` and `activeMasternode.pubKeyMasternode`. -/
  activePrevout : COutPoint := .null
  activePubKey : CPubKey := []
  isRFC1918 : CService → Bool := fun _ => false
  askedRecently : Bool := false

structure CMasternodeMan where
  vMasternodes : List CMasternode := []
  mapSeenMasternodeBroadcast : StdMap uint256 CMasternode := ∅
  mapSeenMasternodePing : StdMap uint256 CMasternodePing := ∅

def getMNCollateral (nHeight : Int) : Int :=
  if nHeight < 1000 then 100
  else if nHeight < 2000 then 200
  else if nHeight < 3000 then 300
  else if nHeight < 260000 then 40000
  else if nHeight < 520000 then 60000
  else if nHeight < 780000 then 80000
  else if nHeight < 1040000 then 90000
  else 100000

namespace MasternodeManContext

variable (ctx : MasternodeManContext)

def height : Int := (ctx.chain.tip.map fun tip => (tip.nHeight : Int)).getD (-1)

def collateral : Int := getMNCollateral ctx.height * COIN

/-- The output of the trial transaction. The product `(GetMNCollateral() - 0.01) * COIN` is computed in double
precision; it is exact up to less than one unit, and truncated. -/
def trialValue : Int := ctx.collateral - 1000000

def acceptableVin (crypto : MasternodeCrypto) (ctx : MasternodeManContext) (vin : CTxIn) : Bool :=
  let vout : CTxOut := { nValue := ctx.trialValue, scriptPubKey := crypto.collateralPubKey }
  (acceptableInputs ctx.chain ctx.checks ctx.policy ctx.base ctx.mempool
    { hash := crypto.txHash [vin] [vout], vin := [vin], vout := [vout] } false false false).isOk

def getInputAge (vin : CTxIn) : Int :=
  match ctx.mempool.getCoins ctx.base vin.prevout.hash with
  | none => -1
  | some coins => if coins.nHeight < 0 then 0 else ctx.height + 1 - coins.nHeight

end MasternodeManContext

namespace CMasternodePing

/-- `operator==` with a default ping. It looks at the input and the block only. -/
def isDefault (p : CMasternodePing) : Bool := p.vin == { prevout := .null } && p.blockHash == 0

def getHash (crypto : MasternodeCrypto) (p : CMasternodePing) : uint256 :=
  crypto.pingHash p.vin (if p.nMessVersion = .hash then some p.blockHash else none) p.sigTime

end CMasternodePing

namespace CMasternode

variable (crypto : MasternodeCrypto) (mn : CMasternode) (ctx : MasternodeManContext)

def getHash : uint256 := crypto.broadcastHash mn.sigTime mn.pubKeyCollateralAddress

def getSignatureHash : uint256 :=
  crypto.signatureHash mn.nMessVersion mn.addr mn.sigTime mn.pubKeyCollateralAddress mn.pubKeyMasternode mn.protocolVersion

def getStrMessage : SignedMessage :=
  .text mn.addr mn.sigTime mn.pubKeyCollateralAddress mn.pubKeyMasternode mn.protocolVersion

/-- `GetOldStrMessage` writes the same text as `GetStrMessage`. -/
def checkSignature : Bool :=
  let message := if mn.nMessVersion = .hash then .hash (mn.getSignatureHash crypto) else mn.getStrMessage
  crypto.verifyMessage mn.pubKeyCollateralAddress mn.vchSig message ||
    crypto.verifyMessage mn.pubKeyCollateralAddress mn.vchSig mn.getStrMessage

def isEnabled : Bool := mn.activeState == .enabled

def isBroadcastedWithin (seconds : Int) (mn : CMasternode) : Bool :=
  decide (ctx.getAdjustedTime - mn.sigTime < seconds)

def isPingedWithin (seconds now : Int) (mn : CMasternode) : Bool :=
  let now := if now = -1 then ctx.getAdjustedTime else now
  if mn.lastPing.isDefault then false else decide (now - mn.lastPing.sigTime < seconds)

def check (forceCheck : Bool) (mn : CMasternode) : CMasternode :=
  if ctx.shutdownRequested then mn
  else if !forceCheck && ctx.checkedRecently mn then mn
  else if mn.activeState = .vinSpent then mn
  else if !mn.isPingedWithin ctx MASTERNODE_REMOVAL_SECONDS (-1) then { mn with activeState := .remove }
  else if !mn.isPingedWithin ctx MASTERNODE_EXPIRATION_SECONDS (-1) then { mn with activeState := .expired }
  else if mn.lastPing.sigTime - mn.sigTime < MASTERNODE_MIN_MNP_SECONDS then { mn with activeState := .preEnabled }
  else if !ctx.lockMain then mn
  else if !ctx.acceptableVin crypto mn.vin then { mn with activeState := .vinSpent }
  else { mn with activeState := .enabled }

def payee : CScript :=
  getScriptForDestination (crypto.getID mn.pubKeyCollateralAddress)

/-- Some output of the collateral's transaction pays the collateral to the key. The index is not looked at. -/
def isInputAssociatedWithPubkey (mn : CMasternode) : Bool :=
  match ctx.getTransaction mn.vin.prevout.hash with
  | none => false
  | some (txVin, _) => txVin.vout.any fun out => out.nValue == ctx.collateral && out.scriptPubKey == mn.payee crypto

end CMasternode

namespace CMasternodeMan

def find (m : CMasternodeMan) (vin : CTxIn) : Option CMasternode :=
  m.vMasternodes.find? fun mn => mn.vin.prevout == vin.prevout

variable (m : CMasternodeMan)

def modify (vin : CTxIn) (change : CMasternode → CMasternode) : CMasternodeMan :=
  { m with vMasternodes := m.vMasternodes.replaceF fun mn =>
      if mn.vin.prevout == vin.prevout then some (change mn) else none }

def add (mn : CMasternode) : Option CMasternode × CMasternodeMan :=
  if !mn.isEnabled then (none, m)
  else match m.find mn.vin with
    | some _ => (none, m)
    | none => (some mn, { m with vMasternodes := m.vMasternodes ++ [mn] })

def remove (vin : CTxIn) : CMasternodeMan :=
  { m with vMasternodes := m.vMasternodes.eraseP fun mn => mn.vin == vin }

end CMasternodeMan

namespace CMasternodePing

/-- The ping's time is near enough; of a known masternode, the signature is looked at, too. -/
def checkSigTime (crypto : MasternodeCrypto) (ctx : MasternodeManContext) (m : CMasternodeMan) (p : CMasternodePing) : Bool :=
  if p.sigTime > ctx.getAdjustedTime + 60 * 60 then false
  else if p.sigTime ≤ ctx.getAdjustedTime - 60 * 60 then false
  else match m.find p.vin with
    | none => true
    | some pmn => crypto.checkPing pmn.pubKeyMasternode p

variable (ctx : MasternodeManContext) (p : CMasternodePing)

/-- The block of a ping is in the active chain, not far below the tip. -/
def checkBlock : Bool :=
  match ctx.chain.mapBlockIndex.lookup p.blockHash with
  | none => false
  | some pindex => ctx.chainActive.contains pindex && !decide (ctx.height - pindex.nHeight > 24)

/-- `CheckAndUpdate` with `fCheckSigTimeOnly` unset. The broadcast that was seen takes over the ping. -/
def checkAndUpdate (crypto : MasternodeCrypto) (ctx : MasternodeManContext) (fRequireEnabled : Bool) (m : CMasternodeMan)
    (p : CMasternodePing) : Bool × CMasternodeMan :=
  if p.sigTime > ctx.getAdjustedTime + 60 * 60 then (false, m)
  else if p.sigTime ≤ ctx.getAdjustedTime - 60 * 60 then (false, m)
  else match m.find p.vin with
    | none => (false, m)
    | some pmn =>
      if pmn.protocolVersion < ctx.minProto then (false, m)
      else if fRequireEnabled && !pmn.isEnabled then (false, m)
      else if pmn.isPingedWithin ctx (MASTERNODE_MIN_MNP_SECONDS - 60) p.sigTime then (false, m)
      else if !crypto.checkPing pmn.pubKeyMasternode p then (false, m)
      else if !p.checkBlock ctx then (false, m)
      else
        let pmn := { pmn with lastPing := p }
        let hash := pmn.getHash crypto
        let m := { m with mapSeenMasternodeBroadcast := match m.mapSeenMasternodeBroadcast.lookup hash with
          | none => m.mapSeenMasternodeBroadcast
          | some mnb => m.mapSeenMasternodeBroadcast.insert hash { mnb with lastPing := p } }
        let pmn := pmn.check crypto ctx true
        (pmn.isEnabled, m.modify p.vin fun _ => pmn)

end CMasternodePing

namespace CMasternodeMan

variable (crypto : MasternodeCrypto) (ctx : MasternodeManContext) (m : CMasternodeMan)
  (mnb : CMasternode)

/-- The ping of a broadcast is taken over when it passes. -/
def takePing : CMasternodeMan :=
  let pinged := if mnb.lastPing.isDefault then (true, m) else mnb.lastPing.checkAndUpdate crypto ctx false m
  if pinged.1 then
    let m := pinged.2.modify mnb.vin fun pmn => { pmn with lastPing := mnb.lastPing }
    { m with mapSeenMasternodePing := StdMap.insertNew m.mapSeenMasternodePing (mnb.lastPing.getHash crypto) mnb.lastPing }
  else pinged.2

/-- `UpdateFromNewBroadcast` of the entry `pmn`, the one that `Find` gives for the input of the broadcast. -/
def updateFromNewBroadcast (pmn mnb : CMasternode) : Bool × CMasternodeMan :=
  if mnb.sigTime > pmn.sigTime then
    let m := m.modify mnb.vin fun pmn =>
      { pmn with
        pubKeyMasternode := mnb.pubKeyMasternode
        pubKeyCollateralAddress := mnb.pubKeyCollateralAddress
        sigTime := mnb.sigTime
        vchSig := mnb.vchSig
        protocolVersion := mnb.protocolVersion
        addr := mnb.addr }
    (true, m.takePing crypto ctx mnb)
  else (false, m)

def updateAndCheck (pmn mnb : CMasternode) : CMasternodeMan :=
  let updated := m.updateFromNewBroadcast crypto ctx pmn mnb
  if updated.1 then updated.2.modify mnb.vin (CMasternode.check crypto ctx false) else updated.2

/-- The port 9070 is that of the main network, and of no other. -/
def wrongPort : Bool :=
  if ctx.chain.network = .main then mnb.addr.port != 9070 else mnb.addr.port == 9070

def checkAndUpdate : Bool × CMasternodeMan :=
  if mnb.sigTime > ctx.getAdjustedTime + 60 * 60 then (false, m)
  else if mnb.lastPing.isDefault || !mnb.lastPing.checkSigTime crypto ctx m then (false, m)
  else if mnb.protocolVersion < ctx.minProto then (false, m)
  else if (mnb.payee crypto).length ≠ 25 then (false, m)
  else if (getScriptForDestination (crypto.getID mnb.pubKeyMasternode)).length ≠ 25 then (false, m)
  else if !mnb.vin.scriptSig.isEmpty then (false, m)
  else if !mnb.checkSignature crypto then (false, m)
  else if wrongPort ctx mnb then (false, m)
  else match m.find mnb.vin with
    | none => (true, m)
    | some pmn =>
      if pmn.sigTime ≥ mnb.sigTime then (false, m)
      else if !pmn.isEnabled then (true, m)
      else if pmn.pubKeyCollateralAddress = mnb.pubKeyCollateralAddress ∧
          !pmn.isBroadcastedWithin ctx MASTERNODE_MIN_MNB_SECONDS then
        (true, m.updateAndCheck crypto ctx pmn mnb)
      else (true, m)

def sigTimeAfterCollateral : Bool :=
  match (ctx.getTransaction mnb.vin.prevout.hash).bind fun found => ctx.chain.mapBlockIndex.lookup found.2 with
  | none => true
  | some pMNIndex =>
    -- A height above the tip would be a null pointer: the node ends without adding the entry.
    match ctx.chainActive.vChain[pMNIndex.nHeight + MASTERNODE_MIN_CONFIRMATIONS.toNat - 1]? with
    | none => false
    | some pConfIndex => !decide (pConfIndex.nTime > mnb.sigTime)

def removeOld (vin : CTxIn) : CMasternodeMan :=
  match m.find vin with
  | none => m
  | some pmn => m.remove pmn.vin

/-- The second half of `CheckInputsAndAdd`: the collateral is unspent, confirmed, and older than the broadcast. -/
def addUnspent : Option CMasternode × CMasternodeMan :=
  let forget := { m with mapSeenMasternodeBroadcast := m.mapSeenMasternodeBroadcast.erase (mnb.getHash crypto) }
  if !ctx.lockMain then (none, forget)
  else if !ctx.acceptableVin crypto mnb.vin then (none, m)
  else if ctx.getInputAge mnb.vin < MASTERNODE_MIN_CONFIRMATIONS then (none, forget)
  else if !sigTimeAfterCollateral ctx mnb then (none, m)
  else m.add mnb

/-- The entry that was added, if one was, and the list. An entry that is not enabled makes room for the new one. -/
def checkInputsAndAdd : Option CMasternode × CMasternodeMan :=
  if ctx.fMasterNode ∧ mnb.vin.prevout = ctx.activePrevout ∧ mnb.pubKeyMasternode = ctx.activePubKey then (none, m)
  else if mnb.lastPing.isDefault || !mnb.lastPing.checkSigTime crypto ctx m then (none, m)
  else if (m.find mnb.vin).any CMasternode.isEnabled then (none, m)
  else (m.removeOld mnb.vin).addUnspent crypto ctx mnb

def processBroadcast : Option CMasternode × CMasternodeMan :=
  if (m.mapSeenMasternodeBroadcast.lookup (mnb.getHash crypto)).isSome then (none, m)
  else
    let m := { m with mapSeenMasternodeBroadcast := m.mapSeenMasternodeBroadcast.insert (mnb.getHash crypto) mnb }
    let updated := m.checkAndUpdate crypto ctx mnb
    if !updated.1 then (none, updated.2)
    else if !mnb.isInputAssociatedWithPubkey crypto ctx then (none, updated.2)
    else updated.2.checkInputsAndAdd crypto ctx mnb

def processPing (mnp : CMasternodePing) : CMasternodeMan :=
  if (m.mapSeenMasternodePing.lookup (mnp.getHash crypto)).isSome then m
  else
    let m := { m with mapSeenMasternodePing := m.mapSeenMasternodePing.insert (mnp.getHash crypto) mnp }
    (mnp.checkAndUpdate crypto ctx true m).2

/-- The loop of `dseg`: the entries that are sent count as seen. -/
def sendEntries (crypto : MasternodeCrypto) (ctx : MasternodeManContext) (vin : CTxIn) :
    List CMasternode → StdMap uint256 CMasternode → StdMap uint256 CMasternode
  | [], seen => seen
  | mn :: rest, seen =>
    if ctx.isRFC1918 mn.addr || !mn.isEnabled then sendEntries crypto ctx vin rest seen
    else if vin = { prevout := .null } ∨ vin = mn.vin then
      let seen := StdMap.insertNew seen (mn.getHash crypto) mn
      if vin = mn.vin then seen else sendEntries crypto ctx vin rest seen
    else sendEntries crypto ctx vin rest seen

def processDseg (vin : CTxIn) : CMasternodeMan :=
  if vin = { prevout := .null } ∧ ctx.chain.network = .main ∧ ctx.askedRecently then m
  else { m with mapSeenMasternodeBroadcast := sendEntries crypto ctx vin m.vMasternodes m.mapSeenMasternodeBroadcast }

def checkAll : CMasternodeMan :=
  { m with vMasternodes := m.vMasternodes.map (CMasternode.check crypto ctx false) }

def removable (forceExpiredRemoval : Bool) (mn : CMasternode) : Bool :=
  mn.activeState == .remove || mn.activeState == .vinSpent || (forceExpiredRemoval && mn.activeState == .expired) ||
    decide (mn.protocolVersion < ctx.minProto)

/-- The broadcasts of entries that are taken out are forgotten, and so are old broadcasts and pings. -/
def checkAndRemove (forceExpiredRemoval : Bool) (m : CMasternodeMan) : CMasternodeMan :=
  let m := m.checkAll crypto ctx
  let removed := m.vMasternodes.filter (removable ctx forceExpiredRemoval)
  let oldest := ctx.getTime - MASTERNODE_REMOVAL_SECONDS * 2
  { vMasternodes := m.vMasternodes.filter fun mn => !removable ctx forceExpiredRemoval mn
    mapSeenMasternodeBroadcast := StdMap.filter (fun _ mnb =>
      !(removed.any fun mn => mnb.vin == mn.vin) && !decide (mnb.lastPing.sigTime < oldest)) m.mapSeenMasternodeBroadcast
    mapSeenMasternodePing := StdMap.filter (fun _ mnp => !decide (mnp.sigTime < oldest)) m.mapSeenMasternodePing }

def updateMasternodeList : Option CMasternode × CMasternodeMan :=
  let m := { m with
    mapSeenMasternodePing := StdMap.insertNew m.mapSeenMasternodePing (mnb.lastPing.getHash crypto) mnb.lastPing
    mapSeenMasternodeBroadcast := StdMap.insertNew m.mapSeenMasternodeBroadcast (mnb.getHash crypto) mnb }
  match m.find mnb.vin with
  | none => m.add mnb
  | some pmn => (none, (m.updateFromNewBroadcast crypto ctx pmn mnb).2)

inductive Op where
  | mnb (mnb : CMasternode)
  | mnp (mnp : CMasternodePing)
  | dseg (vin : CTxIn)
  | check
  | checkAndRemove (forceExpiredRemoval : Bool)
  | remove (vin : CTxIn)
  | updateMasternodeList (mnb : CMasternode)
  | clear

def ignores : Bool := ctx.fLiteMode || !ctx.isBlockchainSynced

/-- The entry that was added, if one was, and the list. A broadcast that is read from a peer counts as enabled. -/
def step (d : MasternodeManContext × Op) : Option CMasternode × CMasternodeMan :=
  match d.2 with
  | .mnb mnb => if ignores d.1 then (none, m) else m.processBroadcast crypto d.1 { mnb with activeState := .enabled }
  | .mnp mnp => (none, if ignores d.1 then m else m.processPing crypto d.1 mnp)
  | .dseg vin => (none, if ignores d.1 then m else m.processDseg crypto d.1 vin)
  | .check => (none, m.checkAll crypto d.1)
  | .checkAndRemove forceExpiredRemoval => (none, m.checkAndRemove crypto d.1 forceExpiredRemoval)
  | .remove vin => (none, m.remove vin)
  | .updateMasternodeList mnb => m.updateMasternodeList crypto d.1 mnb
  | .clear => (none, {})

def run (ops : List (MasternodeManContext × Op)) : CMasternodeMan :=
  ops.foldl (fun m d => (m.step crypto d).2) {}

end CMasternodeMan

end SchillingCoin
