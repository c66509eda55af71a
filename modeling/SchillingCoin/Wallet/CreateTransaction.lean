import SchillingCoin.Lib.Rounds
import SchillingCoin.Primitives.Wire
import SchillingCoin.Wallet.KeyPool
import SchillingCoin.Wallet.CoinSelection

/-!
The transaction that pays from the wallet, after `CreateTransaction` of `wallet.cpp`: a loop that selects coins for the
amount and a fee, makes change, and goes around with a higher fee while the fee does not cover the size. The comparisons
of priorities, computed in floating point, and the signing of an input are parameters.
-/

namespace SchillingCoin

structure CFeeRate where
  nSatoshisPerK : Int
  deriving DecidableEq, Repr

/-- The product is computed in 64 bits without a sign. -/
def CFeeRate.getFee (rate : CFeeRate) (nSize : Nat) : Int :=
  let nFee := rate.nSatoshisPerK * nSize % 2 ^ 64 / 1000
  if nFee = 0 ∧ rate.nSatoshisPerK > 0 then rate.nSatoshisPerK else nFee

def CFeeRate.getFeePerK (rate : CFeeRate) : Int := rate.getFee 1000

def CTxOut.isDust (minRelayTxFee : CFeeRate) (out : CTxOut) : Bool :=
  decide (out.nValue < 3 * minRelayTxFee.getFee ((Wire.serializeTxOut out).size + 148))

def MAX_FREE_TRANSACTION_CREATE_SIZE : Nat := 1000

structure FeePolicy where
  payTxFee : CFeeRate
  minTxFee : CFeeRate
  minRelayTxFee : CFeeRate
  maxTxFee : Int
  fPayAtLeastCustomFee : Bool
  estimateFee : Nat → CFeeRate
  nTxConfirmTarget : Nat
  fSendFreeTransactions : Bool
  /-- Whether the coins, given by value and age, give a transaction of a size the priority to be sent for free. -/
  priorityAllows : List (Int × Int) → CTransaction → Nat → Bool

namespace FeePolicy

variable (p : FeePolicy)

def getMinimumFee (nTxBytes : Nat) : Int :=
  let nFeeNeeded := p.payTxFee.getFee nTxBytes
  let nFeeNeeded :=
    if p.fPayAtLeastCustomFee = true ∧ nFeeNeeded > 0 ∧ nFeeNeeded < p.payTxFee.getFeePerK then p.payTxFee.getFeePerK else nFeeNeeded
  let nFeeNeeded := if nFeeNeeded = 0 then (p.estimateFee p.nTxConfirmTarget).getFee nTxBytes else nFeeNeeded
  let nFeeNeeded := if nFeeNeeded = 0 then p.minTxFee.getFee nTxBytes else nFeeNeeded
  let nFeeNeeded := if nFeeNeeded < p.minRelayTxFee.getFee nTxBytes then p.minRelayTxFee.getFee nTxBytes else nFeeNeeded
  if nFeeNeeded > p.maxTxFee then p.maxTxFee else nFeeNeeded

theorem getMinimumFee_le (nTxBytes : Nat) : p.getMinimumFee nTxBytes ≤ p.maxTxFee := by
  unfold getMinimumFee
  simp only
  split <;> omega

end FeePolicy

structure SendContext extends SpendContext where
  fees : FeePolicy
  /-- `SignSignature`: the script of an input that spends an output of a transaction. -/
  signSignature : CTransaction → CTransaction → Nat → Option CScript
  hash256 : List UInt8 → uint256
  getID : CPubKey → CKeyID
  keySource : KeyPool.KeySource
  keyContext : KeyPool.Context

structure SendRequest where
  vecSend : List (CScript × Int)
  wtxNew : CWalletTx
  /-- The number of the `CReserveKey` object. -/
  reservekey : Nat
  coinControl : Option CCoinControl
  coin_type : AvailableCoinsType
  useIX : Bool
  nFeePay : Int
  fIncludeDelegated : Bool

structure RoundLuck where
  selection : Nat → SelectionLuck
  /-- `GetRandInt` of one more than the argument. -/
  getRandInt : (n : Nat) → Fin (n + 1)
  order : Finset Coin → List Coin
  nodup_order : ∀ setCoins, (order setCoins).Nodup
  toFinset_order : ∀ setCoins, (order setCoins).toFinset = setCoins

structure Draft where
  round : Nat := 0
  nFeeRet : Int
  wtxNew : CWalletTx
  fStakeDelegationVoided : Bool := false
  pool : KeyPool.Wallet

/-- How the call ends the node: an assertion fails, or the key pool throws. -/
inductive SendAbort where
  | age
  | noKey
  | keyPool (e : KeyPool.Throw)

inductive SendEnding where
  | failed (strFailReason : String) (d : Draft)
  | created (d : Draft)
  | aborted (why : SendAbort)

namespace SendRequest

variable (req : SendRequest)

def choice : CWallet.CoinChoice :=
  { coinControl := req.coinControl
    coin_type := req.coin_type
    useIX := req.useIX
    fIncludeColdStaking := false
    fIncludeDelegated := req.fIncludeDelegated }

def feePay : Int := if req.useIX ∧ req.nFeePay < CENT then CENT else req.nFeePay

/-- `nValue`; `none` where the amounts are refused. -/
def totalAmount : Option Int :=
  match req.vecSend.foldlM (fun nValue s => if nValue < 0 then none else some (nValue + s.2)) 0 with
  | none => none
  | some nValue => if req.vecSend.isEmpty ∨ nValue < 0 then none else some nValue

/-- The script of `destChange`, where there is one. -/
def changeScript : Option CScript :=
  match req.coinControl with
  | none => none
  | some coinControl =>
    match coinControl.destChange with
    | .noDestination => none
    | dest => some dest.script

def insufficientFunds : String :=
  let strFailReason := match req.coin_type with
    | .ALL_COINS => "Insufficient funds."
    | .ONLY_NOT15000IFMN => "Unable to locate enough funds for this transaction that are not equal 15000 SCH."
    | .ONLY_NONDENOMINATED_NOT15000IFMN =>
      "Unable to locate enough Obfuscation non-denominated funds for this transaction that are not equal 15000 SCH."
    | _ => "Unable to locate enough Obfuscation denominated funds for this transaction." ++
      " Obfuscation uses exact denominated amounts to send funds, you might simply need to anonymize some more coins."
  if req.useIX then
    strFailReason ++ " SwiftX requires inputs with at least 6 confirmations, you might need to wait a few minutes and try again."
  else strFailReason

/-- A part of a recipient's amount. The last part takes the remainder. -/
def splitPart (nSplitBlock : Int) (s : CScript × Int) (i : Nat) : CTxOut :=
  { nValue := s.2.tdiv nSplitBlock + if (i : Int) = nSplitBlock - 1 then s.2.tmod nSplitBlock else 0, scriptPubKey := s.1 }

def splitAmount (nSplitBlock : Int) (s : CScript × Int) : List CTxOut := (List.range nSplitBlock.toNat).map (splitPart nSplitBlock s)

def nSplitBlock : Int := (req.coinControl.map CCoinControl.nSplitBlock).getD 1

/-- The outputs to the payees; `none` where one is dust. -/
def payees (minRelayTxFee : CFeeRate) : Option (List CTxOut) :=
  if req.coinControl.any fun coinControl => !coinControl.fSplitBlock then
    let vout : List CTxOut := req.vecSend.map fun s => { nValue := s.2, scriptPubKey := s.1 }
    if vout.any (CTxOut.isDust minRelayTxFee) then none else some vout
  else some (req.vecSend.flatMap (splitAmount req.nSplitBlock))

end SendRequest

def addToPayee (scriptChange : CScript) (nChange : Int) : List CTxOut → Option (List CTxOut)
  | [] => none
  | out :: rest =>
    if scriptChange = out.scriptPubKey then some ({ out with nValue := out.nValue + nChange } :: rest)
    else (addToPayee scriptChange nChange rest).map (out :: ·)

namespace SendContext

variable (env : SendContext) (req : SendRequest)

variable (pool : KeyPool.Wallet) (luck : RoundLuck) (vout : List CTxOut) (nChange : Int) (d : Draft)
  (coins : List Coin)

def reserveChangeKey : Except SendAbort (CPubKey × KeyPool.Wallet) :=
  match pool.getReservedKey env.keySource env.keyContext req.reservekey true with
  | .error e => .error (.keyPool e)
  | .ok pool =>
    if (pool.reserveKeys req.reservekey).nIndex = -1 then .error .noKey
    else .ok ((pool.reserveKeys req.reservekey).vchPubKey, pool)

/-- A further output with the change, at a random place. Dust goes into the fee. -/
def insertChange (scriptChange : CScript) (d : Draft) : List CTxOut × Draft :=
  let newTxOut : CTxOut := { nValue := nChange, scriptPubKey := scriptChange }
  if newTxOut.isDust env.fees.minRelayTxFee then
    (vout, { d with nFeeRet := d.nFeeRet + nChange, pool := d.pool.returnReserved req.reservekey })
  else (vout.insertIdx (luck.getRandInt vout.length) newTxOut, d)

def placeChange : Except SendAbort (List CTxOut × Draft) :=
  if nChange > 0 then
    match req.changeScript with
    | some scriptChange =>
      match addToPayee scriptChange nChange vout with
      | some vout => .ok (vout, { d with pool := d.pool.returnReserved req.reservekey })
      | none => .ok (insertChange env req luck vout nChange scriptChange d)
    | none =>
      match reserveChangeKey env req d.pool with
      | .error why => .error why
      | .ok (vchPubKey, pool) =>
        .ok (insertChange env req luck vout nChange (getScriptForDestination (env.getID vchPubKey)) { d with pool := pool })
  else .ok (vout, { d with pool := d.pool.returnReserved req.reservekey })

def signInputs : List Coin → Nat → CTransaction → Option CTransaction
  | [], _, txNew => some txNew
  | coin :: rest, nIn, txNew =>
    match env.signSignature coin.1.tx txNew nIn with
    | none => none
    | some scriptSig => signInputs rest (nIn + 1) { txNew with vin := txNew.vin.modify nIn fun txin => { txin with scriptSig := scriptSig } }

def creditAndAge (coin : Coin) : Int × Int :=
  let age := coin.1.getDepthInMainChain env.toWalletContext
  (coin.txOut.nValue, if age ≠ 0 then age + 1 else age)

def sendsFree (tx : CTransaction) : Bool :=
  let nBytes := tx.getSerializeSize
  env.fees.fSendFreeTransactions && decide (nBytes ≤ MAX_FREE_TRANSACTION_CREATE_SIZE) &&
    env.fees.priorityAllows (coins.map env.creditAndAge) tx nBytes

/-- The end of a round: the transaction is done, refused, or tried again with a higher fee. -/
def checkFee (d : Draft) : Draft ⊕ SendEnding :=
  let nBytes := d.wtxNew.tx.getSerializeSize
  if nBytes ≥ MAX_STANDARD_TX_SIZE then .inr (.failed "Transaction too large" d)
  else if env.sendsFree coins d.wtxNew.tx then .inr (.created d)
  else
    let nFeeNeeded := max req.feePay (env.fees.getMinimumFee nBytes)
    if nFeeNeeded < env.fees.minRelayTxFee.getFee nBytes then .inr (.failed "Transaction too large for fee policy" d)
    else if d.nFeeRet ≥ nFeeNeeded then .inr (.created d)
    else .inl { d with nFeeRet := nFeeNeeded }

/-- The inputs are filled in and signed, and the transaction becomes that of `wtxNew`. -/
def fillAndSign (vout : List CTxOut) (d : Draft) : Draft ⊕ SendEnding :=
  let txNew : CTransaction := { hash := 0, vin := coins.map fun coin => { prevout := coin.outpoint }, vout := vout }
  match env.signInputs coins 0 txNew with
  | none => .inr (.failed "Signing transaction failed" d)
  | some txNew =>
    checkFee env req coins { d with wtxNew := { d.wtxNew with tx := Wire.updateHash env.hash256 txNew } }

def overpay : Draft × Int :=
  if req.coin_type = .ONLY_DENOMINATED then
    let mapValue := ("DS", "1") :: d.wtxNew.mapValue.filter fun entry => entry.1 ≠ "DS"
    ({ d with nFeeRet := d.nFeeRet + nChange, wtxNew := { d.wtxNew with mapValue := mapValue } }, 0)
  else (d, nChange)

def spendCoins (nValue : Int) (vout : List CTxOut) (sel : Selection) (d : Draft) : Draft ⊕ SendEnding :=
  let coins := luck.order sel.setCoins
  if coins.any fun coin => coin.1.getDepthInMainChain env.toWalletContext < 0 then .inr (.aborted .age)
  else
    let voided := coins.any fun coin => CScript.isPayToColdStaking coin.txOut.scriptPubKey
    let d := { d with fStakeDelegationVoided := d.fStakeDelegationVoided || voided }
    let paid := overpay req (sel.nValueRet - nValue - d.nFeeRet) d
    match placeChange env req luck vout paid.2 paid.1 with
    | .error why => .inr (.aborted why)
    | .ok (vout, d) => fillAndSign env req coins vout d

def createRound (w : CWallet) (luck : Nat → RoundLuck) (nValue : Int) (d : Draft) : Draft ⊕ SendEnding :=
  let now := luck d.round
  let d := { d with round := d.round + 1, wtxNew := { d.wtxNew with fFromMe := true } }
  match req.payees env.fees.minRelayTxFee with
  | none => .inr (.failed "Transaction amount too small" d)
  | some vout =>
    match w.selectCoins env.toSpendContext now.selection req.choice (nValue + d.nFeeRet) with
    | none => .inr (.failed req.insufficientFunds d)
    | some sel => spendCoins env req now nValue vout sel d

def firstDraft : Draft :=
  { nFeeRet := if req.feePay > 0 then req.feePay else 0, wtxNew := req.wtxNew, pool := pool }

/-- `CreateTransaction` with a bound on the rounds of its loop. -/
def createTransaction (w : CWallet) (luck : Nat → RoundLuck) (pool : KeyPool.Wallet) (rounds : Nat) : Option SendEnding :=
  match req.totalAmount with
  | none => some (.failed "Transaction amounts must be positive" { nFeeRet := 0, wtxNew := req.wtxNew, pool := pool })
  | some nValue => Rounds.loop (createRound env req w luck nValue) rounds (firstDraft req pool)

end SendContext

end SchillingCoin
