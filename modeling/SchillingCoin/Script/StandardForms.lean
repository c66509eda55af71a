import Mathlib.Tactic.IntervalCases
import SchillingCoin.Script.Templates

/-!
The scripts that `Solver` recognises, type by type: what it returns for a script says of which operations the script consists.
-/

namespace SchillingCoin

namespace CScript

open Operation (plain)

def smallInteger (n : Fin 17) : Operation where
  opcode := if n = 0 then 0 else UInt8.ofNat (n + 0x50)
  holds := by
    revert n
    decide

theorem smallInteger_opcode (n : Fin 17) :
    ((smallInteger n).opcode = 0 ∨ ((smallInteger n).opcode ≥ OP_1 ∧ (smallInteger n).opcode ≤ OP_16)) ∧
      UInt8.ofNat (decodeOP_N (smallInteger n).opcode) = UInt8.ofNat n := by
  revert n
  decide

theorem smallInteger_decode (small : opcode = 0 ∨ (opcode ≥ OP_1 ∧ opcode ≤ OP_16)) :
    ∃ n, (smallInteger n).opcode = opcode := by
  rcases small with rfl | ⟨low, high⟩
  · exact ⟨0, rfl⟩
  · have low : 0x51 ≤ opcode.toNat := UInt8.le_iff_toNat_le.mp low
    have high : opcode.toNat ≤ 0x60 := UInt8.le_iff_toNat_le.mp high
    refine ⟨⟨opcode.toNat - 0x50, by omega⟩, ?_⟩
    have positive : (⟨opcode.toNat - 0x50, by omega⟩ : Fin 17) ≠ 0 := by
      intro zero
      have value := congrArg Fin.val zero
      simp only [Fin.val_zero] at value
      omega
    refine (if_neg positive).trans ?_
    apply UInt8.toNat_inj.mp
    rw [UInt8.toNat_ofNat']
    dsimp only
    omega

variable {op : Operation}

theorem matchOp_smallInteger :
    matchOp OP_SMALLINTEGER (op.opcode, op.data, []) = some found ↔
    ∃ n : Fin 17, op = smallInteger n ∧ found = [[UInt8.ofNat n]] := by
  rw [matchOp, if_neg (by decide), if_neg (by decide), if_pos rfl]
  dsimp only
  constructor
  · intro matched
    split at matched
    · next small =>
      obtain ⟨n, opcode⟩ := smallInteger_decode small
      have data : (smallInteger n).data = op.data := by
        have holds := op.holds
        rcases small with zero | ⟨low, _⟩
        · rw [zero, CanHold, if_pos (by decide)] at holds
          exact (List.eq_nil_of_length_eq_zero holds.symm).symm
        · exact (Operation.data_nil (Nat.lt_of_lt_of_le (by decide) low)).symm
      refine ⟨n, (Operation.ext opcode data).symm, ?_⟩
      rw [← Option.some.inj matched, ← opcode, (smallInteger_opcode n).2]
    · cases matched
  · rintro ⟨n, rfl, rfl⟩
    rw [if_pos (smallInteger_opcode n).1, (smallInteger_opcode n).2]

theorem takePubKeys_iff {op' : Operation} (enough : rest.length < n) :
    takePubKeys n (op.opcode, op.data, rest) = some (keys, (op'.opcode, op'.data, rest')) ↔
      ∃ keyOps : List Operation, op.bytes ++ rest = assemble keyOps ++ (op'.bytes ++ rest') ∧
        (∀ key ∈ keyOps, isPubKeySize key.data) ∧ ¬isPubKeySize op'.data ∧ keys = keyOps.map Operation.data := by
  induction n generalizing op rest keys with
  | zero => omega
  | succ n ih =>
    rw [takePubKeys]
    dsimp only
    by_cases size : isPubKeySize op.data
    · rw [if_pos (show op.data.length ≥ 33 ∧ op.data.length ≤ 65 from size), Option.bind_eq_some_iff]
      constructor
      · rintro ⟨⟨opcode, data, rest₁⟩, read, taken⟩
        have shorter := getOp_length read
        obtain ⟨op₁, rfl, rfl, rfl⟩ := exists_operation read
        obtain ⟨⟨keys₁, next⟩, taken₁, same⟩ := Option.map_eq_some_iff.mp taken
        obtain ⟨rfl, rfl⟩ := Prod.mk.inj same
        obtain ⟨keyOps, bytes, sizes, other, rfl⟩ := (ih (by omega)).mp taken₁
        refine ⟨op :: keyOps, ?_, List.forall_mem_cons.mpr ⟨size, sizes⟩, other, rfl⟩
        rw [bytes, assemble_cons, List.append_assoc]
      · rintro ⟨keyOps, bytes, sizes, other, rfl⟩
        cases keyOps with
        | nil =>
          obtain ⟨rfl, _⟩ := bytes_append_inj bytes
          exact absurd size other
        | cons key keyOps =>
          rw [assemble_cons, List.append_assoc] at bytes
          obtain ⟨rfl, split⟩ := bytes_append_inj bytes
          obtain ⟨op₁, rest₁, rfl⟩ : ∃ op₁ : Operation, ∃ rest₁, rest = op₁.bytes ++ rest₁ := by
            rw [split]
            cases keyOps with
            | nil => exact ⟨op', rest', rfl⟩
            | cons key' keyOps => exact ⟨key', assemble keyOps ++ (op'.bytes ++ rest'), by rw [assemble_cons, List.append_assoc]⟩
          have shorter : rest₁.length < n := by
            rw [Operation.bytes, List.length_append, List.length_cons] at enough
            omega
          refine ⟨_, getOp_bytes op₁ rest₁, ?_⟩
          rw [(ih shorter).mpr ⟨keyOps, split, (List.forall_mem_cons.mp sizes).2, other, rfl⟩]
          rfl
    · rw [if_neg (show ¬(op.data.length ≥ 33 ∧ op.data.length ≤ 65) from size)]
      constructor
      · intro taken
        obtain ⟨rfl, opcode, data, rfl⟩ : keys = [] ∧ op.opcode = op'.opcode ∧ op.data = op'.data ∧ rest = rest' := by
          simpa using taken
        obtain rfl := Operation.ext opcode data
        exact ⟨[], rfl, by simp, size, rfl⟩
      · rintro ⟨keyOps, bytes, sizes, other, rfl⟩
        cases keyOps with
        | nil =>
          obtain ⟨rfl, rfl⟩ := bytes_append_inj bytes
          rfl
        | cons key keyOps =>
          rw [assemble_cons, List.append_assoc] at bytes
          obtain ⟨rfl, _⟩ := bytes_append_inj bytes
          exact absurd (sizes op List.mem_cons_self) size

theorem takePubKeys_stops (taken : takePubKeys n (op.opcode, op.data, rest) = some (keys, next)) :
    ∃ (op' : Operation) (rest' : CScript), next = (op'.opcode, op'.data, rest') := by
  induction n generalizing op rest keys with
  | zero => cases taken
  | succ n ih =>
    rw [takePubKeys] at taken
    split at taken
    · obtain ⟨⟨opcode, data, rest₁⟩, read, taken₁⟩ := Option.bind_eq_some_iff.mp taken
      obtain ⟨op₁, rfl, rfl, _⟩ := exists_operation read
      obtain ⟨⟨keys₁, next₁⟩, taken₂, same⟩ := Option.map_eq_some_iff.mp taken₁
      obtain ⟨_, rfl⟩ := Prod.mk.inj same
      exact ih taken₂
    · obtain ⟨_, rfl⟩ := Prod.mk.inj (Option.some.inj taken)
      exact ⟨op, rest, rfl⟩

def multisigOps (m n : Fin 17) (keys : List Operation) : List Operation :=
  smallInteger m :: (keys ++ [smallInteger n, plain 0xae (by decide)])

theorem matchOps_smallInteger :
    matchOps (OP_SMALLINTEGER :: script2) ops = some result ↔
      ∃ n ops' later, ops = smallInteger n :: ops' ∧ matchOps script2 ops' = some later ∧ result = [UInt8.ofNat n] :: later := by
  rw [matchOps_cons_iff]
  constructor
  · rintro ⟨op, ops', found, later, rfl, here, others, rfl⟩
    obtain ⟨n, rfl, rfl⟩ := matchOp_smallInteger.mp here
    exact ⟨n, ops', later, rfl, others, rfl⟩
  · rintro ⟨n, ops', later, rfl, others, rfl⟩
    exact ⟨_, ops', [[UInt8.ofNat n]], later, rfl, matchOp_smallInteger.mpr ⟨n, rfl, rfl⟩, others, rfl⟩

theorem smallInteger_data (n : Fin 17) : (smallInteger n).data = [] := rfl

theorem multisigOps_bytes (m n : Fin 17) (keys : List Operation) : assemble (multisigOps m n keys) =
    (smallInteger m).bytes ++ (assemble keys ++ ((smallInteger n).bytes ++ assemble [plain 0xae (by decide)])) := by
  rw [multisigOps, assemble_cons, assemble_append, assemble_cons]

theorem matchTemplate_multisig :
    matchTemplate [OP_SMALLINTEGER, OP_PUBKEYS, OP_SMALLINTEGER, 0xae] s = some vSolutions ↔
      ∃ (m n : Fin 17) (keys : List Operation), (∀ key ∈ keys, isPubKeySize key.data) ∧ s = assemble (multisigOps m n keys) ∧
        vSolutions = [UInt8.ofNat m] :: (keys.map Operation.data ++ [[UInt8.ofNat n]]) := by
  rw [matchTemplate, Option.bind_eq_some_iff]
  constructor
  · rintro ⟨⟨opcode, data, rest⟩, read, matched⟩
    obtain ⟨op, rfl, rfl, rfl⟩ := exists_operation read
    obtain ⟨found, here, ⟨_, impossible, _⟩ | ⟨next, read', matched'⟩⟩ := (matchFrom_cons_iff (by decide)).mp matched
    · cases impossible
    · obtain ⟨m, rfl, rfl⟩ := matchOp_smallInteger.mp here
      obtain ⟨opcode', data', rest'⟩ := next
      obtain ⟨op', rfl, rfl, rfl⟩ := exists_operation read'
      rw [matchFrom, if_pos rfl, Option.bind_eq_some_iff] at matched'
      obtain ⟨⟨keys, next⟩, taken, matched''⟩ := matched'
      obtain ⟨last, rest'', rfl⟩ := takePubKeys_stops taken
      obtain ⟨keyOps, bytes, sizes, _, rfl⟩ := (takePubKeys_iff (Nat.lt_succ_self _)).mp taken
      obtain ⟨ops, found, rfl, ending, rfl⟩ := (matchFrom_iff (by decide)).mp matched''
      obtain ⟨n, ops', later, same, others, rfl⟩ := matchOps_smallInteger.mp ending
      obtain ⟨rfl, rfl⟩ := List.cons.inj same
      obtain ⟨ops'', rfl, ended⟩ := (matchOps_plain (by decide) (by decide)).mp others
      obtain ⟨rfl, rfl⟩ := matchOps_nil_iff.mp ended
      refine ⟨m, n, keyOps, sizes, ?_, by simp⟩
      rw [multisigOps_bytes, bytes]
  · rintro ⟨m, n, keys, sizes, rfl, rfl⟩
    rw [multisigOps_bytes]
    refine ⟨_, getOp_bytes _ _, (matchFrom_cons_iff (by decide)).mpr ⟨_, matchOp_smallInteger.mpr ⟨m, rfl, rfl⟩, Or.inr ?_⟩⟩
    obtain ⟨op, rest, first⟩ : ∃ (op : Operation) (rest : CScript),
        assemble keys ++ ((smallInteger n).bytes ++ assemble [plain 0xae (by decide)]) = op.bytes ++ rest := by
      cases keys with
      | nil => exact ⟨smallInteger n, _, rfl⟩
      | cons key keys => exact ⟨key, _, by rw [assemble_cons, List.append_assoc]⟩
    rw [first]
    refine ⟨_, getOp_bytes op rest, ?_⟩
    have stops : ¬isPubKeySize (smallInteger n).data := by
      rw [smallInteger_data]
      decide
    rw [matchFrom, if_pos rfl,
      (takePubKeys_iff (Nat.lt_succ_self _)).mpr ⟨keys, first.symm, sizes, stops, rfl⟩, Option.bind_some]
    have ending : matchOps [OP_SMALLINTEGER, 0xae] [smallInteger n, plain 0xae (by decide)] = some [[UInt8.ofNat n]] :=
      matchOps_smallInteger.mpr ⟨n, _, [], rfl, (matchOps_plain (by decide) (by decide)).mpr ⟨[], rfl, rfl⟩, rfl⟩
    exact (matchFrom_iff (by decide)).mpr ⟨_, _, rfl, ending, by simp⟩

def HasForm (s : CScript) (vSolutions : List valtype) : txnouttype → Prop
  | .TX_NONSTANDARD => False
  | .TX_PUBKEY => ∃ key : Operation, isPubKeySize key.data ∧ s = assemble (pubKeyOps key) ∧ vSolutions = [key.data]
  | .TX_PUBKEYHASH => ∃ hash : Operation, hash.data.length = 20 ∧ s = assemble (pubKeyHashOps hash) ∧ vSolutions = [hash.data]
  | .TX_SCRIPTHASH => ∃ hash : valtype, hash.length = 20 ∧ s = 0xa9 :: 0x14 :: (hash ++ [0x87]) ∧ vSolutions = [hash]
  | .TX_MULTISIG => ∃ (m n : Fin 17) (keys : List Operation), 1 ≤ m.val ∧ m ≤ n ∧ keys.length = n ∧
      (∀ key ∈ keys, isPubKeySize key.data) ∧ s = assemble (multisigOps m n keys) ∧
      vSolutions = [UInt8.ofNat m] :: (keys.map Operation.data ++ [[UInt8.ofNat n]])
  | .TX_NULL_DATA => ∃ pushes : List Operation, (∀ op ∈ pushes, op.opcode ≤ OP_16) ∧ s = OP_RETURN :: assemble pushes ∧ vSolutions = []
  | .TX_ZEROCOINMINT => ∃ (b : UInt8) (data : valtype), s = OP_ZEROCOINMINT :: b :: data ∧ s.length ≤ 150 ∧ vSolutions = [data]
  | .TX_COLDSTAKE => ∃ stakingKey spendingKey : Operation, stakingKey.data.length = 20 ∧ spendingKey.data.length = 20 ∧
      s = assemble (coldStakeOps stakingKey spendingKey) ∧ vSolutions = [stakingKey.data, spendingKey.data]

section Solver

variable {s : CScript} {vSolutions : List valtype}

theorem isPayToScriptHash_iff : isPayToScriptHash s = true ↔ ∃ hash : valtype, hash.length = 20 ∧ s = 0xa9 :: 0x14 :: (hash ++ [0x87]) := by
  simp only [isPayToScriptHash, Bool.and_eq_true, beq_iff_eq]
  constructor
  · rintro ⟨⟨⟨length, first⟩, second⟩, last⟩
    obtain ⟨rest, rfl⟩ : ∃ rest, s = 0xa9 :: 0x14 :: rest := by
      rcases s with _ | ⟨b, _ | ⟨b', rest⟩⟩
      · cases first
      · cases second
      · obtain rfl := Option.some.inj first
        obtain rfl := Option.some.inj second
        exact ⟨rest, rfl⟩
    simp only [List.length_cons] at length
    have ends : rest = rest.take 20 ++ [0x87] := by
      have tail : rest.drop 20 = [0x87] := by
        have inside : 20 < rest.length := by omega
        rw [List.drop_eq_getElem_cons inside, List.drop_eq_nil_of_le (by omega)]
        have here : rest[20]? = some 0x87 := last
        rw [List.getElem?_eq_getElem inside] at here
        rw [Option.some.inj here]
      rw [← tail, List.take_append_drop]
    exact ⟨rest.take 20, by rw [List.length_take]; omega, by rw [← ends]⟩
  · rintro ⟨hash, size, rfl⟩
    refine ⟨⟨⟨by simp [size], rfl⟩, rfl⟩, ?_⟩
    simp [size]

theorem isPushOnlyFrom_iff (enough : s.length ≤ n) :
    isPushOnlyFrom n s = true ↔ ∃ pushes : List Operation, (∀ op ∈ pushes, op.opcode ≤ OP_16) ∧ s = assemble pushes := by
  induction n generalizing s with
  | zero =>
    obtain rfl := List.eq_nil_of_length_eq_zero (Nat.le_zero.mp enough)
    exact iff_of_true rfl ⟨[], by simp, rfl⟩
  | succ n ih =>
    cases s with
    | nil => exact iff_of_true rfl ⟨[], by simp, rfl⟩
    | cons b pc =>
      simp only [isPushOnlyFrom]
      cases read : getOp (b :: pc) with
      | none =>
        refine iff_of_false Bool.false_ne_true ?_
        rintro ⟨pushes, _, same⟩
        cases pushes with
        | nil => cases same
        | cons op ops =>
          rw [same, getOp_assemble] at read
          cases read
      | some next =>
        obtain ⟨opcode, data, rest⟩ := next
        have shorter := getOp_length read
        obtain ⟨op, rfl, rfl, split⟩ := exists_operation read
        dsimp only
        rw [Bool.and_eq_true, ih (by omega), Bool.not_eq_true', decide_eq_false_iff_not, UInt8.not_lt]
        constructor
        · rintro ⟨low, pushes, lows, rfl⟩
          exact ⟨op :: pushes, List.forall_mem_cons.mpr ⟨low, lows⟩, split⟩
        · rintro ⟨pushes, lows, same⟩
          rw [split] at same
          cases pushes with
          | nil => exact absurd (congrArg List.length same) (by simp [Operation.bytes])
          | cons op' pushes =>
            obtain ⟨rfl, rfl⟩ := bytes_append_inj same
            obtain ⟨low, lows⟩ := List.forall_mem_cons.mp lows
            exact ⟨low, pushes, lows, rfl⟩

theorem isPushOnly_iff : isPushOnly s = true ↔ ∃ pushes : List Operation, (∀ op ∈ pushes, op.opcode ≤ OP_16) ∧ s = assemble pushes :=
  isPushOnlyFrom_iff (Nat.le_refl _)

def NoShortcut (op : Operation) : Prop := op.opcode ≠ 0xa9 ∧ op.opcode ≠ OP_ZEROCOINMINT ∧ op.opcode ≠ OP_RETURN

variable {op : Operation} {script2 : List UInt8} {templates : List (txnouttype × List UInt8)}
  {type : txnouttype}

theorem solver_scan (start : NoShortcut op) (ops : List Operation) :
    solver (assemble (op :: ops)) = scanTemplates (assemble (op :: ops)) mTemplates := by
  obtain ⟨b, tail, bytes, same⟩ : ∃ b tail, assemble (op :: ops) = b :: tail ∧ op.opcode = b := ⟨_, _, rfl, rfl⟩
  rw [NoShortcut, same] at start
  rw [bytes]
  generalize tail = rest
  have notHash : isPayToScriptHash (b :: rest) ≠ true := by
    rw [Ne, isPayToScriptHash_iff]
    rintro ⟨hash, _, same⟩
    exact start.1 (List.cons.inj same).1
  have notMint : isZerocoinMint (b :: rest) ≠ true := by
    simpa [isZerocoinMint, startsWithOpcode] using start.2.1
  have notData : ¬((b :: rest).head? = some OP_RETURN ∧ isPushOnly ((b :: rest).drop 1) = true) := by
    rintro ⟨first, _⟩
    exact start.2.2 (Option.some.inj first)
  unfold solver
  rw [if_neg notHash, if_neg notMint, if_neg notData]

theorem noShortcut_of_data (some_ : op.data ≠ []) : NoShortcut op := by
  have low : ¬OP_PUSHDATA4 < op.opcode := fun high => some_ (Operation.data_nil high)
  refine ⟨?_, ?_, ?_⟩
  · intro same
    exact low (same ▸ by decide)
  · intro same
    exact low (same ▸ by decide)
  · intro same
    exact low (same ▸ by decide)

theorem matchTemplate_other (notKeys : opcode2 ≠ OP_PUBKEYS) (other : matchOp opcode2 (op.opcode, op.data, []) = none) :
    matchTemplate (opcode2 :: script2) (assemble (op :: ops)) = none := by
  rw [matchTemplate, getOp_assemble, Option.bind_some, matchFrom, if_neg notKeys, matchOp_rest, other]
  rfl

theorem scanTemplates_fits (h : scanTemplates s templates = some (.TX_MULTISIG, vSolutions)) :
    multisigFits vSolutions = true := by
  induction templates with
  | nil => cases h
  | cons template templates ih =>
    obtain ⟨type, script2⟩ := template
    rw [scanTemplates] at h
    split at h
    · exact ih h
    · split at h
      · cases h
      · next fits =>
        obtain ⟨rfl, rfl⟩ := Prod.mk.inj (Option.some.inj h)
        simpa using fits

theorem multisigFits_iff {m n : Fin 17} :
    multisigFits ([UInt8.ofNat m] :: (keys ++ [[UInt8.ofNat n]])) = true ↔ 1 ≤ m.val ∧ m ≤ n ∧ keys.length = n := by
  have value : ∀ k : Fin 17, (UInt8.ofNat k).toNat = k := by decide
  have last : ([UInt8.ofNat m] :: (keys ++ [[UInt8.ofNat n]])).getLast? = some [UInt8.ofNat n] := by
    rw [← List.cons_append, List.getLast?_concat]
  have length : ([UInt8.ofNat m] :: (keys ++ [[UInt8.ofNat n]])).length - 2 = keys.length := by simp
  rw [multisigFits, last, length]
  simp only [List.head?_cons, Option.bind_some, Bool.not_eq_true', Bool.or_eq_false_iff, decide_eq_false_iff_not, bne_eq_false_iff_eq,
    UInt8.lt_iff_toNat_lt, value, gt_iff_lt, Fin.le_def]
  have one : (1 : UInt8).toNat = 1 := rfl
  omega

theorem dup_noShortcut : NoShortcut (plain 0x76 (by decide)) := ⟨by decide, by decide, by decide⟩

theorem solver_form (notAlone : s ≠ [OP_ZEROCOINMINT]) (h : solver s = some (type, vSolutions)) :
    HasForm s vSolutions type := by
  unfold solver at h
  split at h
  · next isHash =>
    obtain ⟨rfl, rfl⟩ := Prod.mk.inj (Option.some.inj h)
    obtain ⟨hash, size, rfl⟩ := isPayToScriptHash_iff.mp isHash
    exact ⟨hash, size, rfl, by simp [← size]⟩
  · split at h
    · next isMint =>
      split at h
      · cases h
      · next short =>
        obtain ⟨rfl, rfl⟩ := Prod.mk.inj (Option.some.inj h)
        match s with
        | [] => cases isMint
        | [b] =>
          obtain rfl : b = OP_ZEROCOINMINT := by simpa [isZerocoinMint, startsWithOpcode] using isMint
          exact absurd rfl notAlone
        | b :: b' :: data =>
          obtain rfl : b = OP_ZEROCOINMINT := by simpa [isZerocoinMint, startsWithOpcode] using isMint
          exact ⟨b', data, rfl, Nat.le_of_not_lt short, rfl⟩
    · split at h
      · next isData =>
        obtain ⟨rfl, rfl⟩ := Prod.mk.inj (Option.some.inj h)
        obtain ⟨first, pushOnly⟩ := isData
        cases s with
        | nil => cases first
        | cons b rest =>
          obtain rfl := Option.some.inj first
          obtain ⟨pushes, lows, same⟩ := isPushOnly_iff.mp pushOnly
          exact ⟨pushes, lows, congrArg _ same, rfl⟩
      · obtain ⟨script2, member, matched⟩ := scanTemplates_mem h
        simp only [mTemplates, List.mem_cons, Prod.mk.injEq, List.not_mem_nil, or_false] at member
        rcases member with ⟨rfl, rfl⟩ | ⟨rfl, rfl⟩ | ⟨rfl, rfl⟩ | ⟨rfl, rfl⟩
        · exact matchTemplate_pubKey.mp matched
        · exact matchTemplate_pubKeyHash.mp matched
        · obtain ⟨m, n, keys, sizes, rfl, rfl⟩ := matchTemplate_multisig.mp matched
          obtain ⟨positive, fewer, count⟩ := multisigFits_iff.mp (scanTemplates_fits h)
          rw [List.length_map] at count
          exact ⟨m, n, keys, positive, fewer, count, sizes, rfl, rfl⟩
        · exact matchTemplate_coldStake.mp matched

theorem scan_matched (matched : matchTemplate script2 s = some vSolutions)
    (fits : type = .TX_MULTISIG → multisigFits vSolutions = true) :
    scanTemplates s ((type, script2) :: templates) = some (type, vSolutions) := by
  simp only [scanTemplates, matched]
  apply if_neg
  rintro ⟨isMultisig, fails⟩
  rw [fits isMultisig] at fails
  cases fails

theorem scan_unmatched (unmatched : matchTemplate script2 s = none) :
    scanTemplates s ((type, script2) :: templates) = scanTemplates s templates := by
  simp only [scanTemplates, unmatched]

theorem solver_pubKeyOps (size : isPubKeySize key.data) :
    solver (assemble (pubKeyOps key)) = some (.TX_PUBKEY, [key.data]) := by
  have some_ : key.data ≠ [] := by
    intro empty
    rw [empty] at size
    exact absurd size (by decide)
  rw [pubKeyOps, solver_scan (noShortcut_of_data some_)]
  exact scan_matched (matchTemplate_pubKey.mpr ⟨key, size, rfl, rfl⟩) (fun other => nomatch other)

theorem solver_pubKeyHashOps {hash : Operation} (size : hash.data.length = 20) :
    solver (assemble (pubKeyHashOps hash)) = some (.TX_PUBKEYHASH, [hash.data]) := by
  rw [pubKeyHashOps, solver_scan dup_noShortcut, mTemplates, scan_unmatched (matchTemplate_other (by decide) (by decide))]
  exact scan_matched (matchTemplate_pubKeyHash.mpr ⟨hash, size, rfl, rfl⟩) (fun other => by cases other)

theorem solver_multisigOps {m : Fin 17} {keys : List Operation} (positive : 1 ≤ m.val) (fewer : m ≤ n) (count : keys.length = n)
    (sizes : ∀ key ∈ keys, isPubKeySize key.data) : solver (assemble (multisigOps m n keys)) =
      some (.TX_MULTISIG, [UInt8.ofNat m] :: (keys.map Operation.data ++ [[UInt8.ofNat n]])) := by
  have start : NoShortcut (smallInteger m) ∧ matchOp OP_PUBKEY ((smallInteger m).opcode, (smallInteger m).data, []) = none ∧
      matchOp 0x76 ((smallInteger m).opcode, (smallInteger m).data, []) = none := by
    clear positive fewer
    unfold NoShortcut
    revert m
    decide
  rw [multisigOps, solver_scan start.1, mTemplates, scan_unmatched (matchTemplate_other (by decide) start.2.1), scan_unmatched (matchTemplate_other (by decide) start.2.2)]
  refine scan_matched (matchTemplate_multisig.mpr ⟨m, n, keys, sizes, rfl, rfl⟩) (fun _ => multisigFits_iff.mpr ⟨positive, fewer, ?_⟩)
  rw [List.length_map, count]

theorem solver_coldStakeOps (staking : stakingKey.data.length = 20) (spending : spendingKey.data.length = 20) :
    solver (assemble (coldStakeOps stakingKey spendingKey)) = some (.TX_COLDSTAKE, [stakingKey.data, spendingKey.data]) := by
  have noHash : matchTemplate [0x76, 0xa9, OP_PUBKEYHASH, 0x88, 0xac] (assemble (coldStakeOps stakingKey spendingKey)) = none := by
    rw [Option.eq_none_iff_forall_ne_some]
    intro vSolutions matched
    obtain ⟨hash, size, same, _⟩ := matchTemplate_pubKeyHash.mp matched
    have lengths : 11 = 5 := congrArg List.length (assemble_injective same)
    cases lengths
  unfold coldStakeOps at noHash ⊢
  rw [solver_scan dup_noShortcut, mTemplates, scan_unmatched (matchTemplate_other (by decide) (by decide)), scan_unmatched noHash,
    scan_unmatched (matchTemplate_other (by decide) (by decide))]
  exact scan_matched (matchTemplate_coldStake.mpr ⟨_, _, staking, spending, rfl, rfl⟩) (fun other => by cases other)

/-- `Solver` finds a type exactly for the scripts that have its form, except that it does not look whether a mint has more than its
first byte. -/
theorem solver_iff (notAlone : s ≠ [OP_ZEROCOINMINT]) :
    solver s = some (type, vSolutions) ↔ HasForm s vSolutions type := by
  constructor
  · exact solver_form notAlone
  · intro form
    cases type with
    | TX_NONSTANDARD => cases form
    | TX_PUBKEY =>
      obtain ⟨key, size, rfl, rfl⟩ := form
      exact solver_pubKeyOps size
    | TX_PUBKEYHASH =>
      obtain ⟨hash, size, rfl, rfl⟩ := form
      exact solver_pubKeyHashOps size
    | TX_SCRIPTHASH =>
      obtain ⟨hash, size, rfl, rfl⟩ := form
      rw [solver, if_pos (isPayToScriptHash_iff.mpr ⟨hash, size, rfl⟩)]
      simp [← size]
    | TX_MULTISIG =>
      obtain ⟨m, n, keys, positive, fewer, count, sizes, rfl, rfl⟩ := form
      exact solver_multisigOps positive fewer count sizes
    | TX_NULL_DATA =>
      obtain ⟨pushes, lows, rfl, rfl⟩ := form
      have pushOnly : isPushOnly ((OP_RETURN :: assemble pushes).drop 1) = true := isPushOnly_iff.mpr ⟨pushes, lows, rfl⟩
      have notHash : ¬isPayToScriptHash (OP_RETURN :: assemble pushes) = true := by
        rw [isPayToScriptHash_iff]
        rintro ⟨hash, _, same⟩
        exact absurd (List.cons.inj same).1 (by decide)
      rw [solver, if_neg notHash, if_neg (by simp [isZerocoinMint, startsWithOpcode, OP_RETURN, OP_ZEROCOINMINT]), if_pos ⟨rfl, pushOnly⟩]
    | TX_ZEROCOINMINT =>
      obtain ⟨b, data, rfl, short, rfl⟩ := form
      have notHash : ¬isPayToScriptHash (OP_ZEROCOINMINT :: b :: data) = true := by
        rw [isPayToScriptHash_iff]
        rintro ⟨hash, _, same⟩
        exact absurd (List.cons.inj same).1 (by decide)
      have isMint : isZerocoinMint (OP_ZEROCOINMINT :: b :: data) = true := rfl
      rw [solver, if_neg notHash, if_pos isMint, if_neg (Nat.not_lt.mpr short)]
      rfl
    | TX_COLDSTAKE =>
      obtain ⟨stakingKey, spendingKey, staking, spending, rfl, rfl⟩ := form
      exact solver_coldStakeOps staking spending

end Solver

end CScript

end SchillingCoin
