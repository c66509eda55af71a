import SchillingCoin.Net.Bloom
import SchillingCoin.Script.SolverAccess

/-!
`IsRelevantAndUpdate` of `bloom.cpp`: the scan of the outputs and inputs of a transaction, with the places where a script is cut at
a fixed offset.
-/

namespace SchillingCoin

open Codec DataStream Access CScript

namespace CBigNum

def setvch (vch : List UInt8) : Int :=
  match vch.getLast? with
  | none => 0
  | some last =>
    if last &&& 0x80 = 0 then leValue (vch.dropLast ++ [last &&& 0x7f]) else -leValue (vch.dropLast ++ [last &&& 0x7f])

def magnitude (bn : Int) : List UInt8 := leBytes ((Nat.log2 bn.natAbs + 8) / 8) bn.natAbs

def getvch (bn : Int) : List UInt8 :=
  if bn = 0 then []
  else if (magnitude bn).getLastD 0 &&& 0x80 ≠ 0 then magnitude bn ++ [if bn < 0 then 0x80 else 0]
  else if bn < 0 then (magnitude bn).dropLast ++ [(magnitude bn).getLastD 0 ||| 0x80]
  else magnitude bn

end CBigNum

/-- `movePos` goes past the end of a stream too, where nothing is left to read. -/
def DataStream.movePos (nSize : Nat) : StreamReader Unit := fun bytes => .ok ((), bytes.drop nSize)

def parseSerial : StreamReader (List UInt8) := do
  let nSize ← readCompactSize
  movePos nSize
  let nSize ← readCompactSize
  movePos nSize
  let coinSerialNumber ← unserializeBytes
  return CBigNum.getvch (CBigNum.setvch coinSerialNumber)

namespace CBloomFilter

def outputDatum (txout : CTxOut) (data : valtype) : Except BloomStop valtype :=
  if txout.isZerocoinMint then (range txout.scriptPubKey 6 txout.scriptPubKey.length).mapError .memory else .ok data

def serialAt (s : List UInt8) : Except BloomStop valtype :=
  match parseSerial s with
  | .error failure => .error (.thrown failure)
  | .ok (serial, _) => .ok serial

def inputDatum (txin : CTxIn) (data : valtype) : Except BloomStop valtype :=
  if txin.isZerocoinSpend then ((range txin.scriptSig 44 txin.scriptSig.length).mapError .memory).bind serialAt else .ok data

/-- The loop over the operations of a script, which ends with the first datum that the filter has. `datum` is what `data` is
replaced with. -/
def scan (f : CBloomFilter) (s : CScript) (datum : valtype → Except BloomStop valtype) : Nat → Nat → Except BloomStop Bool
  | 0, _ => .error (.memory .unfinished)
  | n + 1, pc =>
    if s.length ≤ pc then .ok false
    else ((getOp2 s pc).mapError .memory).bind fun r =>
      if r.found = false then .ok false
      else (datum r.data).bind fun data =>
        if data = [] then f.scan s datum n r.pc
        else (f.contains data).bind fun known => if known then .ok true else f.scan s datum n r.pc

/-- What a call of `IsRelevantAndUpdate` returns and leaves behind. The keys it inserted are kept for the record. -/
structure Relevance where
  fFound : Bool
  filter : CBloomFilter
  inserted : List (List UInt8) := []
  deriving DecidableEq, Repr

def addsOutput (f : CBloomFilter) (scriptPubKey : CScript) : Except BloomStop Bool :=
  if f.nFlags &&& BLOOM_UPDATE_MASK = BLOOM_UPDATE_ALL then .ok true
  else if f.nFlags &&& BLOOM_UPDATE_MASK = BLOOM_UPDATE_P2PUBKEY_ONLY then
    ((solverAt scriptPubKey).mapError .memory).map fun solution => match solution with
      | some (type, _) => decide (type = .TX_PUBKEY) || decide (type = .TX_MULTISIG)
      | none => false
  else .ok false

def insertOutput (r : Relevance) (outpoint : COutPoint) : Except BloomStop Relevance :=
  (r.filter.insert (outPointKey outpoint)).map fun filter => ⟨true, filter, outPointKey outpoint :: r.inserted⟩

def matchOutput (r : Relevance) (outpoint : COutPoint) (scriptPubKey : CScript) : Except BloomStop Relevance :=
  (r.filter.addsOutput scriptPubKey).bind fun adds => if adds then insertOutput r outpoint else .ok { r with fFound := true }

def outputsLoop (hash : uint256) : Nat → List CTxOut → Relevance → Except BloomStop Relevance
  | _, [], r => .ok r
  | i, txout :: vout, r =>
    (r.filter.scan txout.scriptPubKey (outputDatum txout) (txout.scriptPubKey.length + 1) 0).bind fun matched =>
      if matched then (matchOutput r ⟨hash, i⟩ txout.scriptPubKey).bind (outputsLoop hash (i + 1) vout)
      else outputsLoop hash (i + 1) vout r

def inputsLoop (f : CBloomFilter) : List CTxIn → Except BloomStop Bool
  | [] => .ok false
  | txin :: vin => (f.contains (outPointKey txin.prevout)).bind fun spent =>
    if spent then .ok true
    else (f.scan txin.scriptSig (inputDatum txin) (txin.scriptSig.length + 1) 0).bind fun matched =>
      if matched then .ok true else f.inputsLoop vin

def isRelevantAndUpdate (f : CBloomFilter) (tx : CTransaction) : Except BloomStop Relevance :=
  if f.isFull then .ok ⟨true, f, []⟩
  else if f.isEmpty then .ok ⟨false, f, []⟩
  else (f.contains (hashKey tx.getHash)).bind fun fFound =>
    (outputsLoop tx.getHash 0 tx.vout ⟨fFound, f, []⟩).bind fun r =>
      if r.fFound then .ok r else (r.filter.inputsLoop tx.vin).map fun fFound => { r with fFound }

end CBloomFilter

namespace CScript

def dataFrom : Nat → CScript → List valtype
  | 0, _ => []
  | n + 1, s => match getOp s with
    | none => []
    | some (_, data, next) => data :: dataFrom n next

def pushedData (s : CScript) : List valtype := dataFrom s.length s

variable {s : CScript}

theorem dataFrom_enough (enough : s.length ≤ n) (enough' : s.length ≤ m) : dataFrom n s = dataFrom m s := by
  induction n generalizing m s with
  | zero =>
    obtain rfl : s = [] := List.length_eq_zero_iff.mp (by omega)
    cases m <;> rfl
  | succ n ih =>
    cases m with
    | zero =>
      obtain rfl : s = [] := List.length_eq_zero_iff.mp (by omega)
      rfl
    | succ m =>
      unfold dataFrom
      cases read : getOp s with
      | none => rfl
      | some result =>
        obtain ⟨opcode, data, next⟩ := result
        have shorter := getOp_length read
        exact congrArg (data :: ·) (ih (by omega) (by omega))

theorem pushedData_none (nothing : getOp s = none) : pushedData s = [] := by
  unfold pushedData
  cases s.length with
  | zero => rfl
  | succ n => rw [dataFrom, nothing]

theorem pushedData_some (read : getOp s = some (opcode, data, next)) : pushedData s = data :: pushedData next := by
  have shorter := getOp_length read
  unfold pushedData
  obtain ⟨n, size⟩ : ∃ n, s.length = n + 1 := ⟨s.length - 1, by omega⟩
  rw [size, dataFrom, read]
  dsimp only
  rw [dataFrom_enough (by omega) (Nat.le_refl next.length)]

end CScript

namespace CBloomFilter

def picks (f : CBloomFilter) (data : valtype) : Bool := !data.isEmpty && f.has data

/-- What an output is matched by: a mint by what is left of its script, another output by what it pushes. -/
def matchesOutput (f : CBloomFilter) (txout : CTxOut) : Bool :=
  if txout.isZerocoinMint then f.picks (txout.scriptPubKey.drop 6) else (pushedData txout.scriptPubKey).any f.picks

def ShortMint (txout : CTxOut) : Prop := txout.isZerocoinMint = true ∧ txout.scriptPubKey.length < 6

def ShortSpend (txin : CTxIn) : Prop := txin.isZerocoinSpend = true ∧ txin.scriptSig.length < 44

instance (txout : CTxOut) : Decidable (ShortMint txout) := inferInstanceAs (Decidable (_ ∧ _))

instance (txin : CTxIn) : Decidable (ShortSpend txin) := inferInstanceAs (Decidable (_ ∧ _))

def endsAt (f : CBloomFilter) (txin : CTxIn) : Bool :=
  f.has (outPointKey txin.prevout) ||
    if txin.isZerocoinSpend then
      match serialAt (txin.scriptSig.drop 44) with
      | .error _ => true
      | .ok serial => f.picks serial
    else (pushedData txin.scriptSig).any f.picks

def InputsFit (f : CBloomFilter) (vin : List CTxIn) : Prop :=
  ∀ before txin after, vin = before ++ txin :: after → ShortSpend txin →
    f.has (outPointKey txin.prevout) = true ∨ ∃ earlier ∈ before, f.endsAt earlier = true

/-- No script of the transaction is cut outside of it: the filter answers at once, or there is no short mint and the scan ends
before a short zerocoin spend. -/
def ScanFits (f : CBloomFilter) (tx : CTransaction) : Prop :=
  f.isFull = true ∨ f.isEmpty = true ∨
    (∀ txout ∈ tx.vout, ¬ShortMint txout) ∧
      (f.has (hashKey tx.getHash) = true ∨ (∃ txout ∈ tx.vout, f.matchesOutput txout = true) ∨ f.InputsFit tx.vin)

variable {f : CBloomFilter} {txin : CTxIn} {vin : List CTxIn} {s : CScript} {opcode : UInt8}
  {txout : CTxOut} {r : Relevance}

theorem inputsFit_cons :
    f.InputsFit (txin :: vin) ↔
      (ShortSpend txin → f.has (outPointKey txin.prevout) = true) ∧ (f.endsAt txin = false → f.InputsFit vin) := by
  constructor
  · intro fit
    refine ⟨?_, ?_⟩
    · intro short
      apply (fit [] txin vin rfl short).resolve_right
      intro ⟨_, member, _⟩
      cases member
    intro goesOn before other after parts short
    apply (fit (txin :: before) other after (by rw [parts, List.cons_append]) short).imp_right
    intro ⟨earlier, member, ends⟩
    rcases List.mem_cons.mp member with rfl | member
    · rw [ends] at goesOn
      cases goesOn
    · exact ⟨earlier, member, ends⟩
  · intro ⟨first, rest⟩ before other after parts short
    cases before with
    | nil =>
      obtain ⟨rfl, rfl⟩ := List.cons.inj parts
      exact .inl (first short)
    | cons head before =>
      rw [List.cons_append] at parts
      obtain ⟨rfl, parts'⟩ := List.cons.inj parts
      cases ends : f.endsAt txin with
      | true => exact .inr ⟨txin, List.mem_cons_self, ends⟩
      | false => exact (rest ends before other after parts' short).imp_right fun ⟨earlier, member, ends⟩ =>
          ⟨earlier, List.mem_cons_of_mem _ member, ends⟩

theorem scan_ok (shielded : f.Shielded) {given : valtype → valtype} (gives : ∀ data, datum data = .ok (given data))
    (enough : s.length - pc < n) (inside : pc ≤ s.length) :
    f.scan s datum n pc = .ok ((pushedData (s.drop pc)).any fun data => f.picks (given data)) := by
  induction n generalizing pc with
  | zero => omega
  | succ n ih =>
    rw [scan]
    by_cases ended : s.length ≤ pc
    · rw [if_pos ended, List.drop_eq_nil_of_le ended]
      rfl
    · rw [if_neg ended]
      obtain ⟨r, read, reads⟩ := getOp2_reads inside
      rw [read]
      dsimp only [Except.mapError, Except.bind]
      cases found : r.found with
      | false =>
        rw [if_pos rfl, pushedData_none (reads.nothing found).1]
        rfl
      | true =>
        obtain ⟨forward, operation⟩ := reads.operation found
        have goesOn := @ih r.pc (by omega) reads.inside
        rw [if_neg (by decide), gives, pushedData_some operation, List.any_cons, picks]
        dsimp only
        by_cases empty : given r.data = []
        · rw [if_pos empty, goesOn, empty]
          rfl
        · rw [if_neg empty, contains_ok shielded, List.isEmpty_eq_false_iff.mpr empty]
          cases f.has (given r.data) with
          | true => rfl
          | false => exact goesOn

theorem scan_stops (f : CBloomFilter) (first : getOp s = some (opcode, data, next)) (stops : ∀ data, datum data = .error stop)
    (n : Nat) : f.scan s datum (n + 1) 0 = .error stop := by
  have some_ : ¬s.length ≤ 0 := by
    have shorter := getOp_length first
    omega
  obtain ⟨r, read, reads⟩ := getOp2_reads (Nat.zero_le s.length)
  rw [scan, if_neg some_, read]
  dsimp only [Except.mapError, Except.bind]
  cases found : r.found with
  | false =>
    have nothing := (reads.nothing found).1
    rw [List.drop_zero, first] at nothing
    cases nothing
  | true => rw [if_neg (by decide), stops]

theorem zerocoin_first (plain : ¬opcode ≤ OP_PUSHDATA4) (starts : startsWithOpcode s opcode = true) :
    ∃ rest, getOp s = some (opcode, [], rest) := by
  cases s with
  | nil => cases starts
  | cons b rest =>
    obtain rfl : b = opcode := by simpa [startsWithOpcode] using starts
    exact ⟨rest, getOp_plain plain rest⟩

theorem any_const (first : getOp s = some (opcode, data, next)) (b : Bool) : (pushedData s).any (fun _ => b) = b := by
  rw [pushedData_some first, List.any_cons]
  cases b <;> simp

theorem scanOutput_ok (shielded : f.Shielded) (long : ¬ShortMint txout) :
    f.scan txout.scriptPubKey (outputDatum txout) (txout.scriptPubKey.length + 1) 0 = .ok (f.matchesOutput txout) := by
  unfold matchesOutput
  by_cases mint : txout.isZerocoinMint = true
  · have six : 6 ≤ txout.scriptPubKey.length := Nat.le_of_not_lt fun short => long ⟨mint, short⟩
    obtain ⟨rest, first⟩ := zerocoin_first (by decide) mint
    have gives : ∀ data, outputDatum txout data = .ok (txout.scriptPubKey.drop 6) := by
      intro data
      rw [outputDatum, if_pos mint, range_ok six (Nat.le_refl _), ← List.length_drop, List.take_length]
      rfl
    rw [scan_ok shielded gives (by omega) (Nat.zero_le _), List.drop_zero, any_const first, if_pos mint]
  · have gives : ∀ data, outputDatum txout data = .ok data := fun data => by rw [outputDatum, if_neg mint]
    rw [scan_ok shielded gives (by omega) (Nat.zero_le _), List.drop_zero, if_neg mint]

theorem scanOutput_outside (f : CBloomFilter) (short : ShortMint txout) :
    f.scan txout.scriptPubKey (outputDatum txout) (txout.scriptPubKey.length + 1) 0 = .error (.memory .outOfRange) := by
  obtain ⟨rest, first⟩ := zerocoin_first (by decide) short.1
  apply scan_stops f first
  intro data
  rw [outputDatum, if_pos short.1, range, if_neg (by have := short.2; omega)]
  rfl

structure Relevance.Keeps (f : CBloomFilter) (r : Relevance) : Prop where
  grows : Grows f r.filter
  has : ∀ key ∈ r.inserted, r.filter.has key = true

theorem addsOutput_ok (f : CBloomFilter) (long : ¬ShortMint txout) :
    ∃ adds, f.addsOutput txout.scriptPubKey = .ok adds := by
  have notAlone : txout.scriptPubKey ≠ [OP_ZEROCOINMINT] := by
    intro alone
    apply long
    rw [ShortMint, CTxOut.isZerocoinMint, alone]
    decide
  unfold addsOutput
  rw [solverAt_eq notAlone]
  split
  · exact ⟨true, rfl⟩
  · split
    · exact ⟨_, rfl⟩
    · exact ⟨false, rfl⟩

theorem matchOutput_ok (shielded : f.Shielded) (keeps : r.Keeps f) (outpoint : COutPoint)
    (long : ¬ShortMint txout) :
    ∃ r', matchOutput r outpoint txout.scriptPubKey = .ok r' ∧ r'.Keeps f ∧ r'.fFound = true := by
  obtain ⟨adds, asked⟩ := addsOutput_ok r.filter long
  rw [matchOutput, asked]
  dsimp only [Except.bind]
  cases adds with
  | false => exact ⟨_, rfl, ⟨keeps.grows, keeps.has⟩, rfl⟩
  | true =>
    obtain ⟨g, inserted, grows, has⟩ := insert_ok (keeps.grows.shielded shielded) (outPointKey outpoint)
    rw [if_pos rfl, insertOutput, inserted]
    refine ⟨_, rfl, ⟨keeps.grows.trans grows, ?_⟩, rfl⟩
    intro key member
    rcases List.mem_cons.mp member with rfl | member
    · exact has
    · exact grows.has (keeps.has key member)

theorem outputsLoop_ok (shielded : f.Shielded) (hash : uint256) (vout : List CTxOut) (long : ∀ txout ∈ vout, ¬ShortMint txout)
    (keeps : r.Keeps f) (untouched : r.fFound = false → r.filter = f) :
    ∃ r', outputsLoop hash i vout r = .ok r' ∧ r'.Keeps f ∧ r'.fFound = (r.fFound || vout.any r.filter.matchesOutput) ∧
      (r'.fFound = false → r'.filter = f) := by
  induction vout generalizing i r with
  | nil => exact ⟨r, rfl, keeps, by simp, untouched⟩
  | cons txout vout ih =>
    have long' : ∀ txout ∈ vout, ¬ShortMint txout := fun other member => long other (List.mem_cons_of_mem _ member)
    have here := long txout List.mem_cons_self
    rw [outputsLoop, scanOutput_ok (keeps.grows.shielded shielded) here, List.any_cons]
    dsimp only [Except.bind]
    cases r.filter.matchesOutput txout with
    | false =>
      rw [if_neg (by decide), Bool.false_or]
      exact ih long' keeps untouched
    | true =>
      obtain ⟨r₁, matched, keeps₁, found₁⟩ := matchOutput_ok shielded keeps ⟨hash, i⟩ here
      obtain ⟨r', rest, keeps', found', untouched'⟩ := ih long' (i := i + 1) keeps₁ (fun not => by rw [found₁] at not; cases not)
      refine ⟨r', ?_, keeps', ?_, untouched'⟩
      · rw [if_pos rfl, matched]
        exact rest
      · rw [found', found₁, Bool.true_or, Bool.true_or, Bool.or_true]

theorem outputsLoop_outside (shielded : f.Shielded) (hash : uint256) (vout : List CTxOut)
    (short : ∃ txout ∈ vout, ShortMint txout) (keeps : r.Keeps f) :
    outputsLoop hash i vout r = .error (.memory .outOfRange) := by
  induction vout generalizing i r with
  | nil => exact absurd short fun ⟨_, member, _⟩ => nomatch member
  | cons txout vout ih =>
    rw [outputsLoop]
    by_cases here : ShortMint txout
    · rw [scanOutput_outside _ here]
      rfl
    · obtain ⟨other, member, shortOther⟩ := short
      have later : ∃ txout ∈ vout, ShortMint txout := by
        rcases List.mem_cons.mp member with rfl | member
        · exact absurd shortOther here
        · exact ⟨other, member, shortOther⟩
      rw [scanOutput_ok (keeps.grows.shielded shielded) here]
      dsimp only [Except.bind]
      split
      · obtain ⟨r₁, matched, keeps₁, _⟩ := matchOutput_ok shielded keeps ⟨hash, i⟩ here
        rw [matched]
        exact ih later keeps₁
      · exact ih later keeps

theorem scanInput_plain (shielded : f.Shielded) (plain : txin.isZerocoinSpend = false) :
    f.scan txin.scriptSig (inputDatum txin) (txin.scriptSig.length + 1) 0 = .ok ((pushedData txin.scriptSig).any f.picks) := by
  have gives : ∀ data, inputDatum txin data = .ok data := fun data => by rw [inputDatum, plain, if_neg (by decide)]
  rw [scan_ok shielded gives (by omega) (Nat.zero_le _), List.drop_zero]

theorem scanInput_spend (shielded : f.Shielded) (spend : txin.isZerocoinSpend = true)
    (long : ¬ShortSpend txin) :
    f.scan txin.scriptSig (inputDatum txin) (txin.scriptSig.length + 1) 0 = (serialAt (txin.scriptSig.drop 44)).map f.picks := by
  have starts : startsWithOpcode txin.scriptSig OP_ZEROCOINSPEND = true := by
    unfold CTxIn.isZerocoinSpend at spend
    exact (Bool.and_eq_true_iff.mp spend).2
  have cut : 44 ≤ txin.scriptSig.length := Nat.le_of_not_lt fun short => long ⟨spend, short⟩
  obtain ⟨rest, first⟩ := zerocoin_first (by decide) starts
  have gives : ∀ data, inputDatum txin data = serialAt (txin.scriptSig.drop 44) := by
    intro data
    rw [inputDatum, if_pos spend, range_ok cut (Nat.le_refl _), ← List.length_drop, List.take_length]
    rfl
  cases serial : serialAt (txin.scriptSig.drop 44) with
  | error stop =>
    rw [serial] at gives
    rw [scan_stops f first gives]
    rfl
  | ok datum =>
    rw [serial] at gives
    rw [scan_ok shielded gives (by omega) (Nat.zero_le _), List.drop_zero, any_const first]
    rfl

theorem scanInput_outside (f : CBloomFilter) (short : ShortSpend txin) :
    f.scan txin.scriptSig (inputDatum txin) (txin.scriptSig.length + 1) 0 = .error (.memory .outOfRange) := by
  have starts : startsWithOpcode txin.scriptSig OP_ZEROCOINSPEND = true := by
    have spend := short.1
    unfold CTxIn.isZerocoinSpend at spend
    exact (Bool.and_eq_true_iff.mp spend).2
  obtain ⟨rest, first⟩ := zerocoin_first (by decide) starts
  apply scan_stops f first
  intro data
  rw [inputDatum, if_pos short.1, range, if_neg (by have := short.2; omega)]
  rfl

theorem serialAt_thrown (failed : serialAt s = .error stop) : ∃ failure, stop = .thrown failure := by
  unfold serialAt at failed
  split at failed
  · exact ⟨_, (Except.error.inj failed).symm⟩
  · cases failed

theorem inputsLoop_cons (shielded : f.Shielded) (txin : CTxIn) (vin : List CTxIn) :
    f.inputsLoop (txin :: vin) = if f.has (outPointKey txin.prevout) then .ok true
      else (f.scan txin.scriptSig (inputDatum txin) (txin.scriptSig.length + 1) 0).bind fun matched =>
        if matched then .ok true else f.inputsLoop vin := by
  rw [inputsLoop, contains_ok shielded]
  rfl

theorem inputsLoop_plain (shielded : f.Shielded) (plain : ∀ txin ∈ vin, txin.isZerocoinSpend = false) :
    f.inputsLoop vin = .ok (vin.any f.endsAt) := by
  induction vin with
  | nil => rfl
  | cons txin vin ih =>
    have here := plain txin List.mem_cons_self
    rw [inputsLoop_cons shielded, scanInput_plain shielded here, ih fun other member => plain other (List.mem_cons_of_mem _ member),
      List.any_cons, endsAt, here]
    cases f.has (outPointKey txin.prevout) with
    | true => rfl
    | false => cases matched : (pushedData txin.scriptSig).any f.picks <;> simp [Except.bind]

theorem inputsLoop_fits (shielded : f.Shielded) (fit : f.InputsFit vin) :
    (∃ found, f.inputsLoop vin = .ok found) ∨ ∃ failure, f.inputsLoop vin = .error (.thrown failure) := by
  induction vin with
  | nil => exact .inl ⟨false, rfl⟩
  | cons txin vin ih =>
    obtain ⟨first, rest⟩ := inputsFit_cons.mp fit
    rw [inputsLoop_cons shielded]
    cases spent : f.has (outPointKey txin.prevout) with
    | true => exact .inl ⟨true, rfl⟩
    | false =>
      have long : ¬ShortSpend txin := by
        intro short
        rw [first short] at spent
        cases spent
      rw [if_neg (by decide)]
      unfold endsAt at rest
      rw [spent, Bool.false_or] at rest
      cases spend : txin.isZerocoinSpend with
      | false =>
        rw [spend, if_neg (by decide)] at rest
        rw [scanInput_plain shielded spend]
        dsimp only [Except.bind]
        cases matched : (pushedData txin.scriptSig).any f.picks with
        | true => exact .inl ⟨true, rfl⟩
        | false => exact ih (rest matched)
      | true =>
        rw [spend, if_pos rfl] at rest
        rw [scanInput_spend shielded spend long]
        cases serial : serialAt (txin.scriptSig.drop 44) with
        | error stop =>
          obtain ⟨failure, rfl⟩ := serialAt_thrown serial
          exact .inr ⟨failure, rfl⟩
        | ok datum =>
          rw [serial] at rest
          dsimp only [Except.map, Except.bind]
          cases matched : f.picks datum with
          | true => exact .inl ⟨true, rfl⟩
          | false => exact ih (rest matched)

theorem inputsLoop_outside (shielded : f.Shielded) (unfit : ¬f.InputsFit vin) :
    f.inputsLoop vin = .error (.memory .outOfRange) := by
  induction vin with
  | nil =>
    apply absurd _ unfit
    intro before txin after parts
    simp at parts
  | cons txin vin ih =>
    have notBoth := mt inputsFit_cons.mpr unfit
    rw [inputsLoop_cons shielded]
    by_cases short : ShortSpend txin
    · cases spent : f.has (outPointKey txin.prevout) with
      | true =>
        -- A match ends the scan, and everything before a match fits.
        apply absurd _ notBoth
        refine ⟨fun _ => spent, ?_⟩
        intro goesOn
        rw [endsAt, spent, Bool.true_or] at goesOn
        cases goesOn
      | false =>
        rw [if_neg (by decide), scanInput_outside f short]
        rfl
    · have goesOn : f.endsAt txin = false ∧ ¬f.InputsFit vin := by
        by_contra fits
        apply notBoth
        refine ⟨fun short' => absurd short' short, ?_⟩
        intro goesOn
        by_contra unfit'
        exact fits ⟨goesOn, unfit'⟩
      have rest := ih goesOn.2
      have ends := goesOn.1
      rw [endsAt, Bool.or_eq_false_iff] at ends
      rw [ends.1, if_neg (by decide)]
      cases spend : txin.isZerocoinSpend with
      | false =>
        have matched := ends.2
        rw [spend, if_neg (by decide)] at matched
        rw [scanInput_plain shielded spend, matched]
        exact rest
      | true =>
        have matched := ends.2
        rw [spend, if_pos rfl] at matched
        rw [scanInput_spend shielded spend short]
        cases serial : serialAt (txin.scriptSig.drop 44) with
        | error stop =>
          rw [serial] at matched
          cases matched
        | ok datum =>
          rw [serial] at matched
          dsimp only [Except.map, Except.bind]
          rw [show f.picks datum = false from matched]
          exact rest

theorem isRelevantAndUpdate_fits (shielded : f.Shielded) (fits : f.ScanFits tx) :
    (∃ r, f.isRelevantAndUpdate tx = .ok r ∧ r.Keeps f) ∨ ∃ failure, f.isRelevantAndUpdate tx = .error (.thrown failure) := by
  have unchanged : ∀ fFound, (⟨fFound, f, []⟩ : Relevance).Keeps f := fun _ => ⟨.refl f, fun key member => nomatch member⟩
  unfold isRelevantAndUpdate
  cases full : f.isFull with
  | true => exact .inl ⟨_, rfl, unchanged true⟩
  | false =>
    rw [if_neg (by decide)]
    cases empty : f.isEmpty with
    | true => exact .inl ⟨_, rfl, unchanged false⟩
    | false =>
      obtain ⟨long, ends⟩ := (fits.resolve_left (by simp [full])).resolve_left (by simp [empty])
      rw [if_neg (by decide), contains_ok shielded]
      obtain ⟨r, outputs, keeps, found, untouched⟩ := outputsLoop_ok shielded tx.getHash tx.vout long (i := 0)
        (unchanged (f.has (hashKey tx.getHash))) fun _ => rfl
      dsimp only [Except.bind]
      rw [outputs]
      dsimp only
      cases foundHere : r.fFound with
      | true => exact .inl ⟨r, rfl, keeps⟩
      | false =>
        have same : r.filter.inputsLoop tx.vin = f.inputsLoop tx.vin := by rw [untouched foundHere]
        have nothing := Bool.or_eq_false_iff.mp (found.symm.trans foundHere)
        rw [if_neg (by decide), same]
        have inputs : f.InputsFit tx.vin := by
          rcases ends with known | ⟨txout, member, matched⟩ | inputs
          · rw [known] at nothing
            cases nothing.1
          · have none := List.any_eq_false.mp nothing.2 txout member
            rw [matched] at none
            exact absurd rfl none
          · exact inputs
        rcases inputsLoop_fits shielded inputs with ⟨found, looped⟩ | ⟨failure, looped⟩
        · rw [looped]
          exact .inl ⟨_, rfl, ⟨keeps.grows, keeps.has⟩⟩
        · rw [looped]
          exact .inr ⟨failure, rfl⟩

theorem isRelevantAndUpdate_outside (shielded : f.Shielded) (unfit : ¬f.ScanFits tx) :
    f.isRelevantAndUpdate tx = .error (.memory .outOfRange) := by
  have unchanged : ∀ fFound, (⟨fFound, f, []⟩ : Relevance).Keeps f := fun _ => ⟨.refl f, fun key member => nomatch member⟩
  unfold ScanFits at unfit
  rw [not_or, not_or] at unfit
  obtain ⟨full, empty, unfit⟩ := unfit
  rw [isRelevantAndUpdate, if_neg full, if_neg empty, contains_ok shielded]
  dsimp only [Except.bind]
  by_cases long : ∀ txout ∈ tx.vout, ¬ShortMint txout
  · have scans : ¬(f.has (hashKey tx.getHash) = true ∨ (∃ txout ∈ tx.vout, f.matchesOutput txout = true) ∨ f.InputsFit tx.vin) :=
      fun ends => unfit ⟨long, ends⟩
    rw [not_or, not_or] at scans
    obtain ⟨r, outputs, keeps, found, untouched⟩ := outputsLoop_ok shielded tx.getHash tx.vout long (i := 0)
      (unchanged (f.has (hashKey tx.getHash))) fun _ => rfl
    have nothing : r.fFound = false := by
      rw [found]
      apply Bool.or_eq_false_iff.mpr
      refine ⟨Bool.eq_false_iff.mpr scans.1, List.any_eq_false.mpr fun txout member matched => scans.2.1 ⟨txout, member, matched⟩⟩
    rw [outputs]
    dsimp only
    rw [nothing, if_neg (by decide), untouched nothing, inputsLoop_outside shielded scans.2.2]
    rfl
  · have short : ∃ txout ∈ tx.vout, ShortMint txout := by
      by_contra none
      exact long fun txout member here => none ⟨txout, member, here⟩
    rw [outputsLoop_outside shielded tx.getHash tx.vout short (unchanged _)]

end CBloomFilter

end SchillingCoin
