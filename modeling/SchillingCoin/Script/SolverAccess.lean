import SchillingCoin.Script.Iterators
import SchillingCoin.Script.StandardForms

/-!
`Solver` with every access to the script and to its solutions written out.
-/

namespace SchillingCoin

namespace CScript

open Access

/-- The comparison of bytes that `IsPayToScriptHash` makes one after another. -/
def bytesAre (s : CScript) : List (Nat × UInt8) → Except Fault Bool
  | [] => .ok true
  | (i, b) :: rest => (element s i).bind fun c => if c = b then bytesAre s rest else .ok false

def isPayToScriptHashAt (s : CScript) : Except Fault Bool :=
  if s.length ≠ 23 then .ok false else bytesAre s [(0, 0xa9), (1, 0x14), (22, 0x87)]

def startsWithOpcodeAt (s : CScript) (opcode : UInt8) : Except Fault Bool :=
  if s.isEmpty then .ok false else bytesAre s [(0, opcode)]

/-- `DecodeOP_N`, which asserts that the operation pushes a small number. -/
def decodeOP_NAt (opcode : UInt8) : Except Fault Nat :=
  if opcode = 0 then .ok 0
  else if opcode ≥ OP_1 ∧ opcode ≤ OP_16 then .ok (opcode.toNat - 0x50)
  else .error .assertion

def compareOps (r1 r2 : GetOpResult) : Except Fault (Option (List valtype)) :=
  if r2.opcode = OP_PUBKEY then .ok (if r1.data.length < 33 ∨ r1.data.length > 65 then none else some [r1.data])
  else if r2.opcode = OP_PUBKEYHASH then .ok (if r1.data.length ≠ 20 then none else some [r1.data])
  else if r2.opcode = OP_SMALLINTEGER then
    if r1.opcode = 0 ∨ (r1.opcode ≥ OP_1 ∧ r1.opcode ≤ OP_16) then
      (decodeOP_NAt r1.opcode).map fun n => some [[UInt8.ofNat n]]
    else .ok none
  else .ok (if r1.opcode ≠ r2.opcode ∨ r1.data ≠ r2.data then none else some [])

/-- The loop for `OP_PUBKEYS`: the keys, and what was read last. -/
def pubKeysLoop (script1 : CScript) : Nat → GetOpResult → Except Fault (List valtype × GetOpResult)
  | 0, _ => .error .unfinished
  | n + 1, r1 =>
    if r1.data.length ≥ 33 ∧ r1.data.length ≤ 65 then
      (getOp2 script1 r1.pc).bind fun next =>
        if next.found = false then .ok ([r1.data], next)
        else (pubKeysLoop script1 n next).map fun taken => (r1.data :: taken.1, taken.2)
    else .ok ([], r1)

/-- The loop that compares a script with a template. `none` is a `break`. -/
def compareLoop (script1 script2 : CScript) : Nat → Nat → Nat → List valtype → Except Fault (Option (List valtype))
  | 0, _, _, _ => .error .unfinished
  | n + 1, pc1, pc2, vSolutions =>
    if pc1 = script1.length ∧ pc2 = script2.length then .ok (some vSolutions)
    else (getOp2 script1 pc1).bind fun r1 =>
      if r1.found = false then .ok none
      else (getOp2 script2 pc2).bind fun r2 =>
        if r2.found = false then .ok none
        else if r2.opcode = OP_PUBKEYS then
          (pubKeysLoop script1 (script1.length + 1) r1).bind fun taken =>
            (getOp2 script2 r2.pc).bind fun r2' =>
              if r2'.found = false then .ok none
              else (compareOps taken.2 r2').bind fun compared => match compared with
                | none => .ok none
                | some found => compareLoop script1 script2 n taken.2.pc r2'.pc (vSolutions ++ taken.1 ++ found)
        else (compareOps r1 r2).bind fun compared => match compared with
          | none => .ok none
          | some found => compareLoop script1 script2 n r1.pc r2.pc (vSolutions ++ found)

def firstByte (solution : Option valtype) : Except Fault UInt8 :=
  match solution with
  | none => .error .outOfRange
  | some vch => element vch 0

/-- The additional checks for `TX_MULTISIG`. The size is unsigned. -/
def multisigFitsAt (vSolutions : List valtype) : Except Fault Bool :=
  (firstByte vSolutions.head?).bind fun m => (firstByte vSolutions.getLast?).bind fun n =>
    .ok (!(decide (m < 1) || decide (n < 1) || decide (m > n) || vSolutions.length != n.toNat + 2))

def scanTemplatesAt (script1 : CScript) : List (txnouttype × List UInt8) → Except Fault (Option (txnouttype × List valtype))
  | [] => .ok none
  | (type, script2) :: templates =>
    (compareLoop script1 script2 (script1.length + 1) 0 0 []).bind fun matched => match matched with
      | none => scanTemplatesAt script1 templates
      | some vSolutions =>
        if type = .TX_MULTISIG then (multisigFitsAt vSolutions).map fun fits => if fits = false then none else some (type, vSolutions)
        else .ok (some (type, vSolutions))

def isNullDataAt (s : CScript) : Except Fault Bool :=
  if s.length ≥ 1 then (element s 0).bind fun b => if b = OP_RETURN then isPushOnlyAt s (s.length + 1) 1 else .ok false
  else .ok false

def solverAt (scriptPubKey : CScript) : Except Fault (Option (txnouttype × List valtype)) :=
  (isPayToScriptHashAt scriptPubKey).bind fun isHash =>
    if isHash then (range scriptPubKey 2 22).map fun hashBytes => some (.TX_SCRIPTHASH, [hashBytes])
    else (startsWithOpcodeAt scriptPubKey OP_ZEROCOINMINT).bind fun isMint =>
      if isMint then
        if scriptPubKey.length > 150 then .ok none
        else (range scriptPubKey 2 scriptPubKey.length).map fun hashBytes => some (.TX_ZEROCOINMINT, [hashBytes])
      else (isNullDataAt scriptPubKey).bind fun isData =>
        if isData then .ok (some (.TX_NULL_DATA, [])) else scanTemplatesAt scriptPubKey mTemplates

variable {s t : CScript} {r1 : GetOpResult} {opcode2 : UInt8} {script2 : List UInt8}

theorem bytesAre_eq (inside : ∀ test ∈ tests, test.1 < s.length) :
    bytesAre s tests = .ok (tests.all fun test => s[test.1]? == some test.2) := by
  induction tests with
  | nil => rfl
  | cons test tests ih =>
    obtain ⟨i, b⟩ := test
    obtain ⟨here, others⟩ := List.forall_mem_cons.mp inside
    have there : s[i]? = some s[i] := List.getElem?_eq_getElem here
    rw [bytesAre, element_ok there, List.all_cons, there]
    dsimp only [Except.bind]
    by_cases same : s[i] = b
    · rw [if_pos same, ih others, same]
      simp
    · rw [if_neg same]
      simp [same]

theorem isPayToScriptHashAt_eq (s : CScript) : isPayToScriptHashAt s = .ok (isPayToScriptHash s) := by
  unfold isPayToScriptHashAt
  by_cases length : s.length = 23
  · rw [if_neg (not_not.mpr length), bytesAre_eq (by simp [length])]
    simp [isPayToScriptHash, length, Bool.and_assoc]
  · rw [if_pos length]
    simp [isPayToScriptHash, length]

theorem startsWithOpcodeAt_eq (s : CScript) (opcode : UInt8) : startsWithOpcodeAt s opcode = .ok (startsWithOpcode s opcode) := by
  cases s with
  | nil => rfl
  | cons b rest =>
    have first : startsWithOpcodeAt (b :: rest) opcode = bytesAre (b :: rest) [(0, opcode)] := rfl
    rw [first, bytesAre_eq (by simp)]
    simp [startsWithOpcode]

theorem compareOps_eq (plain2 : r2.data = []) (rest : CScript) :
    compareOps r1 r2 = .ok (matchOp r2.opcode (r1.opcode, r1.data, rest)) := by
  unfold compareOps matchOp
  dsimp only
  by_cases isKey : r2.opcode = OP_PUBKEY
  · rw [if_pos isKey, if_pos isKey]
  · rw [if_neg isKey, if_neg isKey]
    by_cases isHash : r2.opcode = OP_PUBKEYHASH
    · rw [if_pos isHash, if_pos isHash]
    · rw [if_neg isHash, if_neg isHash]
      by_cases isNumber : r2.opcode = OP_SMALLINTEGER
      · rw [if_pos isNumber, if_pos isNumber]
        by_cases small : r1.opcode = 0 ∨ (r1.opcode ≥ OP_1 ∧ r1.opcode ≤ OP_16)
        · have decoded : decodeOP_NAt r1.opcode = .ok (decodeOP_N r1.opcode) := by
            unfold decodeOP_NAt decodeOP_N
            by_cases zero : r1.opcode = 0
            · rw [if_pos zero, zero]
              rfl
            · rw [if_neg zero, if_pos (small.resolve_left zero)]
          rw [if_pos small, if_pos small, decoded]
          rfl
        · rw [if_neg small, if_neg small]
      · rw [if_neg isNumber, if_neg isNumber, plain2]

theorem compareOps_nothing (nothing : r1.opcode = OP_INVALIDOPCODE ∧ r1.data = []) (plain2 : r2.data = [])
    (known : r2.opcode ≠ OP_INVALIDOPCODE) : compareOps r1 r2 = .ok none := by
  rw [compareOps_eq plain2 [], nothing.1, nothing.2]
  unfold matchOp
  dsimp only
  split
  · rfl
  · split
    · rfl
    · split
      · rfl
      · rw [if_pos (Or.inl (Ne.symm known))]

theorem pubKeysLoop_eq (inside : r1.pc ≤ s.length) (enough : s.length - r1.pc < n) (enough' : s.length - r1.pc < m) :
    ∃ keys r, pubKeysLoop s n r1 = .ok (keys, r) ∧ r.pc ≤ s.length ∧ r1.pc ≤ r.pc ∧
      (takePubKeys m (r1.opcode, r1.data, s.drop r1.pc) = some (keys, (r.opcode, r.data, s.drop r.pc)) ∨
        takePubKeys m (r1.opcode, r1.data, s.drop r1.pc) = none ∧ r.opcode = OP_INVALIDOPCODE ∧ r.data = []) := by
  induction n generalizing m r1 with
  | zero => omega
  | succ n ih =>
    obtain ⟨m, rfl⟩ : ∃ k, m = k + 1 := ⟨m - 1, by omega⟩
    rw [pubKeysLoop, takePubKeys]
    dsimp only
    by_cases isKey : r1.data.length ≥ 33 ∧ r1.data.length ≤ 65
    · rw [if_pos isKey, if_pos isKey]
      obtain ⟨next, read, reads⟩ := getOp2_reads inside
      rw [read]
      dsimp only [Except.bind]
      have inside' := reads.inside
      have forward := reads.forward
      cases found : next.found with
      | false =>
        rw [if_pos rfl]
        obtain ⟨nothing, opcode, data⟩ := reads.nothing found
        exact ⟨_, _, rfl, inside', forward, Or.inr ⟨by rw [nothing]; rfl, opcode, data⟩⟩
      | true =>
        obtain ⟨further, operation⟩ := reads.operation found
        obtain ⟨keys, r, loop, last, after, taken⟩ := ih (m := m) inside' (by omega) (by omega)
        rw [if_neg (by simp), loop, operation, Option.bind_some]
        refine ⟨_, r, rfl, last, by omega, ?_⟩
        rcases taken with taken | ⟨taken, opcode, data⟩
        · exact Or.inl (by rw [taken]; rfl)
        · exact Or.inr ⟨by rw [taken]; rfl, opcode, data⟩
    · rw [if_neg isKey, if_neg isKey]
      exact ⟨[], r1, rfl, inside, Nat.le_refl _, Or.inl rfl⟩

structure IsTemplate (script2 : List UInt8) : Prop where
  plain : ∀ opcode ∈ script2, ¬opcode ≤ OP_PUSHDATA4 ∧ opcode ≠ OP_INVALIDOPCODE
  once : script2.count OP_PUBKEYS ≤ 1

theorem IsTemplate.tail (template : IsTemplate (opcode2 :: script2)) : IsTemplate script2 where
  plain opcode member := template.plain opcode (List.mem_cons_of_mem _ member)
  once := Nat.le_trans (List.Sublist.count_le _ (List.sublist_cons_self _ _)) template.once

def matchRest (script2 : List UInt8) (pc : CScript) (vSolutions : List valtype) : Option (List valtype) :=
  if pc = [] ∧ script2 = [] then some vSolutions else (getOp pc).bind fun op => matchFrom script2 op vSolutions

theorem matchFrom_rest (notKeys : opcode2 ≠ OP_PUBKEYS) (script2 : List UInt8) (op : ReadOp)
    (vSolutions : List valtype) :
    matchFrom (opcode2 :: script2) op vSolutions =
      (matchOp opcode2 op).bind fun found => matchRest script2 op.2.2 (vSolutions ++ found) := by
  rw [matchFrom, if_neg notKeys]
  rfl

theorem getOp2_template (here : t.drop pc = opcode2 :: script2) (template : IsTemplate (opcode2 :: script2)) :
    pc + 1 ≤ t.length ∧ getOp2 t pc = .ok ⟨true, opcode2, [], pc + 1⟩ ∧ t.drop (pc + 1) = script2 := by
  have there : pc < t.length := by
    by_contra outside
    rw [List.drop_eq_nil_of_le (Nat.le_of_not_lt outside)] at here
    cases here
  have split := List.drop_eq_getElem_cons there
  rw [here] at split
  obtain ⟨first, rest⟩ := List.cons.inj split
  refine ⟨there, ?_, rest.symm⟩
  rw [getOp2, if_neg (Nat.not_le.mpr there), element_ok (List.getElem?_eq_getElem there), ← first]
  dsimp only [Except.bind]
  rw [if_neg (template.plain opcode2 List.mem_cons_self).1]

theorem getOp2_ended (here : t.drop pc = []) : getOp2 t pc = .ok (notFound pc) := by
  rw [getOp2, if_pos (List.drop_eq_nil_iff.mp here)]

theorem compareLoop_eq (enough : s.length - pc1 < n) (inside : pc1 ≤ s.length) (inside2 : pc2 ≤ t.length)
    (template : IsTemplate (t.drop pc2)) :
    compareLoop s t n pc1 pc2 vSolutions = .ok (matchRest (t.drop pc2) (s.drop pc1) vSolutions) := by
  induction n generalizing pc1 pc2 vSolutions with
  | zero => omega
  | succ n ih =>
    have ended : (pc1 = s.length ∧ pc2 = t.length) ↔ s.drop pc1 = [] ∧ t.drop pc2 = [] := by
      rw [List.drop_eq_nil_iff, List.drop_eq_nil_iff]
      omega
    rw [compareLoop, matchRest]
    by_cases done : s.drop pc1 = [] ∧ t.drop pc2 = []
    · rw [if_pos (ended.mpr done), if_pos done]
    rw [if_neg (fun both => done (ended.mp both)), if_neg done]
    obtain ⟨r1, read, reads⟩ := getOp2_reads inside
    rw [read]
    dsimp only [Except.bind]
    cases found : r1.found with
    | false => rw [if_pos rfl, (reads.nothing found).1]; rfl
    | true =>
      obtain ⟨forward, operation⟩ := reads.operation found
      have inside1 := reads.inside
      rw [if_neg (by simp), operation, Option.bind_some]
      cases here : t.drop pc2 with
      | nil => rw [getOp2_ended here]; rfl
      | cons opcode2 script2 =>
        rw [here] at template
        obtain ⟨inside2', read2, rest2⟩ := getOp2_template here template
        rw [read2]
        dsimp only
        rw [if_neg (by simp)]
        by_cases isKeys : opcode2 = OP_PUBKEYS
        · subst isKeys
          rw [if_pos rfl, matchFrom, if_pos rfl]
          obtain ⟨keys, r, loop, last, after, taken⟩ := pubKeysLoop_eq (n := s.length + 1) (m := (s.drop r1.pc).length + 1) inside1 (by omega)
            (by rw [List.length_drop]; omega)
          rw [loop]
          dsimp only
          have noKeys : OP_PUBKEYS ∉ script2 := by
            have once := template.once
            rw [List.count_cons_self] at once
            exact List.count_eq_zero.mp (by omega)
          cases next : script2 with
          | nil =>
            rw [getOp2_ended (rest2.trans next)]
            dsimp only [notFound]
            rw [if_pos rfl]
            cases takePubKeys ((s.drop r1.pc).length + 1) (r1.opcode, r1.data, s.drop r1.pc) <;> rfl
          | cons opcode2' script2' =>
            have template' := template.tail
            rw [next] at template' noKeys
            have notKeys : opcode2' ≠ OP_PUBKEYS := fun same => noKeys (same ▸ List.mem_cons_self)
            obtain ⟨inside2'', read2', rest2'⟩ := getOp2_template (rest2.trans next) template'
            rw [read2']
            dsimp only
            rw [if_neg (by simp)]
            rcases taken with taken | ⟨taken, nothing⟩
            · rw [taken, Option.bind_some, matchFrom_rest notKeys, compareOps_eq rfl (s.drop r.pc)]
              dsimp only
              cases matchOp opcode2' (r.opcode, r.data, s.drop r.pc) with
              | none => rfl
              | some found =>
                dsimp only
                rw [ih (by omega) last inside2'' (by rw [rest2']; exact template'.tail), rest2']
                rfl
            · rw [taken, compareOps_nothing nothing rfl (template'.plain opcode2' List.mem_cons_self).2]
              rfl
        · rw [if_neg isKeys, matchFrom_rest isKeys, compareOps_eq rfl (s.drop r1.pc)]
          dsimp only
          cases matchOp opcode2 (r1.opcode, r1.data, s.drop r1.pc) with
          | none => rfl
          | some found =>
            dsimp only
            rw [ih (by omega) inside1 inside2' (by rw [rest2]; exact template.tail), rest2]
            rfl

set_option maxRecDepth 4000 in
theorem isTemplate_of_mem (member : (type, script2) ∈ mTemplates) : IsTemplate script2 ∧ script2 ≠ [] := by
  simp only [mTemplates, List.mem_cons, Prod.mk.injEq, List.not_mem_nil, or_false] at member
  rcases member with ⟨-, rfl⟩ | ⟨-, rfl⟩ | ⟨-, rfl⟩ | ⟨-, rfl⟩
  all_goals exact ⟨⟨by decide, by decide⟩, List.cons_ne_nil _ _⟩

theorem multisigFitsAt_eq (matched : matchTemplate [OP_SMALLINTEGER, OP_PUBKEYS, OP_SMALLINTEGER, 0xae] s = some vSolutions) :
    multisigFitsAt vSolutions = .ok (multisigFits vSolutions) := by
  obtain ⟨m, n, keys, _, _, rfl⟩ := matchTemplate_multisig.mp matched
  have last : ([UInt8.ofNat m] :: (keys.map Operation.data ++ [[UInt8.ofNat n]])).getLast? = some [UInt8.ofNat n] := by
    rw [← List.cons_append, List.getLast?_concat]
  have length : ([UInt8.ofNat m] :: (keys.map Operation.data ++ [[UInt8.ofNat n]])).length = keys.length + 2 := by simp
  have sizes : (keys.length + 2 != (UInt8.ofNat n).toNat + 2) = (keys.length != (UInt8.ofNat n).toNat) := by
    rw [Bool.eq_iff_iff, bne_iff_ne, bne_iff_ne, Ne, Ne, Nat.add_right_cancel_iff]
  rw [multisigFitsAt, multisigFits, last, length]
  simp only [List.head?_cons, firstByte, element, List.getElem?_cons_zero, Except.bind, Option.bind_some, Nat.add_sub_cancel, sizes]

theorem scanTemplatesAt_eq (s : CScript) (known : templates ⊆ mTemplates) :
    scanTemplatesAt s templates = .ok (scanTemplates s templates) := by
  induction templates with
  | nil => rfl
  | cons template templates ih =>
    obtain ⟨type, script2⟩ := template
    have member : (type, script2) ∈ mTemplates := known List.mem_cons_self
    obtain ⟨isTemplate, some_⟩ := isTemplate_of_mem member
    have whole : compareLoop s script2 (s.length + 1) 0 0 [] = .ok (matchTemplate script2 s) := by
      rw [compareLoop_eq (by omega) (Nat.zero_le _) (Nat.zero_le _) (by rw [List.drop_zero]; exact isTemplate), List.drop_zero, List.drop_zero,
        matchRest, if_neg (fun both => some_ both.2)]
      rfl
    rw [scanTemplatesAt, scanTemplates, whole]
    dsimp only [Except.bind]
    cases matched : matchTemplate script2 s with
    | none => exact ih (List.subset_of_cons_subset known)
    | some vSolutions =>
      dsimp only
      by_cases isMultisig : type = .TX_MULTISIG
      · subst isMultisig
        obtain rfl : script2 = [OP_SMALLINTEGER, OP_PUBKEYS, OP_SMALLINTEGER, 0xae] := by simpa [mTemplates] using member
        rw [if_pos rfl, multisigFitsAt_eq matched]
        cases multisigFits vSolutions <;> rfl
      · rw [if_neg isMultisig, if_neg (fun both => isMultisig both.1)]

theorem isNullDataAt_eq (s : CScript) :
    isNullDataAt s = .ok (decide (s.head? = some OP_RETURN ∧ isPushOnly (s.drop 1) = true)) := by
  cases s with
  | nil => rfl
  | cons b rest =>
    rw [isNullDataAt, if_pos (by simp), element_ok rfl]
    dsimp only [Except.bind]
    by_cases isReturn : b = OP_RETURN
    · rw [if_pos isReturn, isPushOnlyAt_eq (m := rest.length) (by simp only [List.length_cons]; omega) (by simp) (by simp), isReturn]
      simp [isPushOnly]
    · rw [if_neg isReturn]
      simp [isReturn]

theorem solverAt_eq (notAlone : s ≠ [OP_ZEROCOINMINT]) : solverAt s = .ok (solver s) := by
  rw [solverAt, solver, isPayToScriptHashAt_eq, startsWithOpcodeAt_eq, isNullDataAt_eq, scanTemplatesAt_eq s (List.Subset.refl _)]
  dsimp only [Except.bind]
  by_cases isHash : isPayToScriptHash s = true
  · obtain ⟨hash, size, rfl⟩ := isPayToScriptHash_iff.mp isHash
    rw [if_pos isHash, if_pos isHash, range_ok (by decide) (by simp [size])]
    rfl
  rw [if_neg isHash, if_neg isHash]
  by_cases isMint : startsWithOpcode s OP_ZEROCOINMINT = true
  · rw [if_pos isMint, if_pos (show isZerocoinMint s = true from isMint)]
    by_cases long : s.length > 150
    · rw [if_pos long, if_pos long]
    · have two : 2 ≤ s.length := by
        rcases s with _ | ⟨b, _ | ⟨_, _⟩⟩
        · cases isMint
        · obtain rfl : b = OP_ZEROCOINMINT := by simpa [startsWithOpcode] using isMint
          exact absurd rfl notAlone
        · simp
      rw [if_neg long, if_neg long, range_ok two (Nat.le_refl _), ← List.length_drop, List.take_length]
      rfl
  · rw [if_neg isMint, if_neg (show ¬isZerocoinMint s = true from isMint)]
    by_cases isData : s.head? = some OP_RETURN ∧ isPushOnly (s.drop 1) = true
    · rw [decide_eq_true isData, if_pos rfl, if_pos isData]
    · rw [decide_eq_false isData, if_neg (by simp), if_neg isData]

end CScript

end SchillingCoin
