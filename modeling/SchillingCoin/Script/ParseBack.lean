import SchillingCoin.Script.Destination
import SchillingCoin.Script.ScriptNum

/-!
Scripts that are built with `operator<<` and read with `GetOp`. `GetOp2` compares the size of a push with the bytes that are left as
`unsigned int`, which is here what it is in scripts of any length.
-/

namespace SchillingCoin

open Codec

namespace CScript

namespace Bits32

open Access

variable (s : CScript) (pc : Nat)

def getOpData (opcode : UInt8) (nSize pc : Nat) : Except Fault GetOpResult :=
  if (s.length - pc) % 2 ^ 32 < nSize then .ok (notFound pc)
  else (range s pc (pc + nSize)).map fun data => ⟨true, opcode, data, pc + nSize⟩

def getOpSized (opcode : UInt8) (pc : Nat) : Except Fault GetOpResult :=
  if opcode < OP_PUSHDATA1 then getOpData s opcode opcode.toNat pc
  else if s.length - pc < sizeWidth opcode then .ok (notFound pc)
  else (range s pc (pc + sizeWidth opcode)).bind fun size => getOpData s opcode (littleEndian size) (pc + sizeWidth opcode)

def getOp2 : Except Fault GetOpResult :=
  if s.length ≤ pc then .ok (notFound pc)
  else (element s pc).bind fun opcode =>
    if opcode ≤ OP_PUSHDATA4 then getOpSized s opcode (pc + 1) else .ok ⟨true, opcode, [], pc + 1⟩

/-- What `GetOp` reads from an iterator on until it finds nothing, and the iterator then. -/
def iterate (s : CScript) : Nat → Nat → Except Fault (List (UInt8 × valtype) × Nat)
  | 0, _ => .error .unfinished
  | n + 1, pc =>
    (getOp2 s pc).bind fun r =>
      if r.found = false then .ok ([], r.pc)
      else (iterate s n r.pc).map fun later => ((r.opcode, r.data) :: later.1, later.2)

/-- An operation is not found where its data is longer than the bytes from there on, counted in 32 bits. -/
def truncated (r : GetOpResult) : GetOpResult :=
  if (s.length - (r.pc - r.data.length)) % 2 ^ 32 < r.data.length then notFound (r.pc - r.data.length) else r

variable {r : GetOpResult} {s : CScript} {pc : Nat}

theorem truncated_nil (noData : r.data = []) (s : CScript) : truncated s r = r := by
  rw [truncated, if_neg]
  rw [noData]
  exact Nat.not_lt_zero _

theorem truncated_notFound (s : CScript) (pc : Nat) : truncated s (notFound pc) = notFound pc := truncated_nil rfl s

theorem getOpData_truncated (read : CScript.getOpData s opcode nSize pc = .ok r) :
    getOpData s opcode nSize pc = .ok (truncated s r) := by
  unfold CScript.getOpData at read
  have less : (s.length - pc) % 2 ^ 32 ≤ s.length - pc := Nat.mod_le _ _
  unfold getOpData
  split at read
  · next short =>
    obtain rfl := Except.ok.inj read
    rw [if_pos (Nat.lt_of_le_of_lt less short), truncated_notFound]
  · next enough =>
    by_cases inside : pc + nSize ≤ s.length
    · rw [range_ok (Nat.le_add_right _ _) inside, Nat.add_sub_cancel_left] at read ⊢
      obtain rfl := Except.ok.inj read
      have length : ((s.drop pc).take nSize).length = nSize := by
        rw [List.length_take, List.length_drop]
        omega
      rw [truncated, length, Nat.add_sub_cancel]
      split <;> rfl
    · rw [range, if_neg (fun order => inside order.2)] at read
      cases read

theorem getOpSized_truncated (read : CScript.getOpSized s opcode pc = .ok r) :
    getOpSized s opcode pc = .ok (truncated s r) := by
  unfold CScript.getOpSized at read
  unfold getOpSized
  split at read
  · next short =>
    rw [if_pos short]
    exact getOpData_truncated read
  · next long =>
    rw [if_neg long]
    split at read
    · next short =>
      obtain rfl := Except.ok.inj read
      rw [if_pos short, truncated_notFound]
    · next enough =>
      rw [if_neg enough]
      cases size : range s pc (pc + sizeWidth opcode) with
      | error fault =>
        rw [size] at read
        exact nomatch read
      | ok size' =>
        rw [size] at read
        exact getOpData_truncated read

theorem getOp2_truncated (read : CScript.getOp2 s pc = .ok r) : getOp2 s pc = .ok (truncated s r) := by
  unfold CScript.getOp2 at read
  unfold getOp2
  split at read
  · next ended =>
    obtain rfl := Except.ok.inj read
    rw [if_pos ended, truncated_notFound]
  · next more =>
    rw [if_neg more]
    cases first : element s pc with
    | error fault =>
      rw [first] at read
      exact nomatch read
    | ok opcode =>
      rw [first] at read
      dsimp only [Except.bind] at read ⊢
      split at read
      · next push =>
        rw [if_pos push]
        exact getOpSized_truncated read
      · next plain =>
        obtain rfl := Except.ok.inj read
        rw [if_neg plain, truncated_nil rfl]

theorem data_before (reads : ReadsAt s pc r) (inside : pc ≤ s.length) : pc + r.data.length ≤ r.pc := by
  cases found : r.found with
  | false =>
    rw [(reads.nothing found).2.2]
    exact reads.forward
  | true =>
    have last := reads.inside
    obtain ⟨op, _, data, split⟩ := exists_operation (reads.operation found).2
    have length := congrArg List.length split
    rw [List.length_append, List.length_drop, List.length_drop, Operation.bytes, List.length_cons, List.length_append, data] at length
    omega

theorem getOp2_eq (short : s.length < 2 ^ 32) (inside : pc ≤ s.length) :
    getOp2 s pc = CScript.getOp2 s pc := by
  obtain ⟨r, read, reads⟩ := getOp2_reads inside
  have before := data_before reads inside
  have last := reads.inside
  have left : (s.length - (r.pc - r.data.length)) % 2 ^ 32 = s.length - (r.pc - r.data.length) := Nat.mod_eq_of_lt (by omega)
  rw [getOp2_truncated read, read, truncated, left, if_neg (by omega)]

theorem getOp2_inside (inside : pc ≤ s.length) :
    ∃ r, getOp2 s pc = .ok r ∧ pc ≤ r.pc ∧ r.pc ≤ s.length ∧ (r.found = true → pc < r.pc) := by
  obtain ⟨r, read, reads⟩ := getOp2_reads inside
  have before := data_before reads inside
  have last := reads.inside
  refine ⟨truncated s r, getOp2_truncated read, ?_⟩
  unfold truncated
  split
  · exact ⟨Nat.le_sub_of_add_le before, Nat.le_trans (Nat.sub_le _ _) last, nofun⟩
  · exact ⟨reads.forward, last, fun found => (reads.operation found).1⟩

def Reaches : List Operation → Prop
  | [] => True
  | op :: ops => op.data.length ≤ (op.data.length + (assemble ops).length) % 2 ^ 32 ∧ Reaches ops

theorem getOp2_operation (inside : pc ≤ s.length) (here : s.drop pc = assemble (op :: ops)) :
    ∃ next, next ≤ s.length ∧ s.drop next = assemble ops ∧
      getOp2 s pc = .ok (truncated s ⟨true, op.opcode, op.data, next⟩) ∧
      s.length - (next - op.data.length) = op.data.length + (assemble ops).length := by
  obtain ⟨r, read, reads⟩ := getOp2_reads inside
  have first := getOp_assemble op ops
  rw [← here] at first
  cases found : r.found with
  | false => exact nomatch (reads.nothing found).1.symm.trans first
  | true =>
    obtain ⟨opcode, data, rest⟩ : r.opcode = op.opcode ∧ r.data = op.data ∧ s.drop r.pc = assemble ops := by
      simpa using (reads.operation found).2.symm.trans first
    have last := reads.inside
    have before := data_before reads inside
    have length := congrArg List.length rest
    rw [List.length_drop] at length
    rw [data] at before
    refine ⟨r.pc, last, rest, ?_, by omega⟩
    rw [getOp2_truncated read, ← opcode, ← data, ← found]

theorem iterate_assemble (inside : pc ≤ s.length) (here : s.drop pc = assemble ops) (enough : ops.length < n) :
    ∃ reads last, iterate s n pc = .ok (reads, last) ∧
      (Reaches ops → reads = ops.map (fun op => (op.opcode, op.data)) ∧ last = s.length) ∧ (¬Reaches ops → reads.length < ops.length) := by
  induction ops generalizing n pc with
  | nil =>
    obtain ⟨n, rfl⟩ : ∃ k, n = k + 1 := ⟨n - 1, by omega⟩
    have ended : s.length ≤ pc := List.drop_eq_nil_iff.mp here
    refine ⟨[], pc, ?_, fun _ => ⟨rfl, by omega⟩, fun unmet => absurd trivial unmet⟩
    rw [iterate, getOp2, if_pos ended]
    rfl
  | cons op ops ih =>
    obtain ⟨n, rfl⟩ : ∃ k, n = k + 1 := ⟨n - 1, by omega⟩
    obtain ⟨next, last, rest, read, left⟩ := getOp2_operation inside here
    rw [iterate, read, truncated]
    dsimp only [Except.bind]
    rw [left]
    by_cases cut : (op.data.length + (assemble ops).length) % 2 ^ 32 < op.data.length
    · rw [if_pos cut]
      exact ⟨[], _, if_pos rfl, fun reaches => absurd reaches.1 (Nat.not_le.mpr cut), fun _ => Nat.succ_pos _⟩
    · obtain ⟨reads, end_, run, all, fewer⟩ := ih last rest (Nat.lt_of_succ_lt_succ enough)
      rw [if_neg cut, if_neg (show ¬true = false by decide), run]
      refine ⟨_, end_, rfl, ?_, ?_⟩
      · intro reaches
        obtain ⟨same, isEnd⟩ := all reaches.2
        rw [same]
        exact ⟨rfl, isEnd⟩
      · intro unmet
        exact Nat.succ_lt_succ (fewer fun reaches => unmet ⟨Nat.not_lt.mp cut, reaches⟩)

end Bits32

end CScript

/-- What `operator<<` is given: an operation that pushes no data of its own, a number, or a byte vector. -/
inductive ScriptItem where
  | opcode (code : UInt8) (allowed : code = 0 ∨ OP_PUSHDATA4 < code)
  | integer (n : Int) (range : -2 ^ 63 ≤ n ∧ n < 2 ^ 63)
  | vector (b : valtype) (small : b.length < 2 ^ 32)

namespace ScriptItem

def data : ScriptItem → valtype
  | .opcode _ _ => []
  | .integer n _ => if n = -1 ∨ 1 ≤ n ∧ n ≤ 16 then [] else if n = 0 then [] else CScriptNum.serialize n
  | .vector b _ => b

def bytes : ScriptItem → CScript
  | .opcode code _ => [code]
  | .integer n _ => CScript.pushInt n
  | .vector b _ => CScript.pushData b

def Reads : ScriptItem → UInt8 × valtype → Prop
  | .opcode code _, r => r = (code, [])
  | .integer n _, r =>
    if n = -1 ∨ 1 ≤ n ∧ n ≤ 16 then r = (UInt8.ofNat (n + 0x50).toNat, [])
    else if n = 0 then r = (0, [])
    else r.1 ≤ OP_PUSHDATA4 ∧ CScriptNum.isMinimal r.2 = true ∧ CScriptNum.setVch r.2 = n
  | .vector b _, r => r.1 ≤ OP_PUSHDATA4 ∧ r.2 = b

end ScriptItem

namespace CScript

def append (s : CScript) (item : ScriptItem) : CScript := s ++ item.bytes

variable (item : ScriptItem) (items : List ScriptItem)

def build : CScript := items.foldl append []

/-- Iterating `GetOp` from the beginning reads the items and ends at the end. -/
def ParsesBack : Prop :=
  ∃ reads, Bits32.iterate (build items) ((build items).length + 1) 0 = .ok (reads, (build items).length) ∧
    List.Forall₂ ScriptItem.Reads items reads

/-- The data of each item is not longer than the bytes from its start to the end of the script, counted in 32 bits. -/
def ItemsFit : List ScriptItem → Prop
  | [] => True
  | item :: items => item.data.length ≤ (item.data.length + (build items).length) % 2 ^ 32 ∧ ItemsFit items

theorem build_cons : build (item :: items) = item.bytes ++ build items := by
  have from_ : ∀ (items : List ScriptItem) (s : CScript), items.foldl append s = s ++ items.flatMap ScriptItem.bytes := by
    intro items
    induction items with
    | nil => exact fun s => (List.append_nil s).symm
    | cons item items ih =>
      intro s
      rw [List.foldl_cons, ih, append, List.flatMap_cons, List.append_assoc]
  rw [build, build, from_, from_, List.nil_append, List.nil_append, List.flatMap_cons]

theorem exists_bare (allowed : opcode = 0 ∨ OP_PUSHDATA4 < opcode) :
    ∃ op : Operation, op.bytes = [opcode] ∧ op.opcode = opcode ∧ op.data = [] := by
  rcases allowed with isZero | high
  · rw [isZero]
    exact ⟨⟨0, [], by decide⟩, rfl, rfl, rfl⟩
  · exact ⟨.plain opcode high, Operation.plain_bytes high, rfl, rfl⟩

theorem exists_item_operation :
    ∃ op : Operation, op.bytes = item.bytes ∧ item.Reads (op.opcode, op.data) ∧ op.data = item.data := by
  cases item with
  | opcode code allowed =>
    obtain ⟨op, bytes, same, noData⟩ := exists_bare allowed
    exact ⟨op, bytes, by rw [same, noData, ScriptItem.Reads], noData⟩
  | vector b small =>
    obtain ⟨op, bytes, data, opcode⟩ := exists_pushOperation small
    exact ⟨op, bytes, ⟨opcode ▸ pushOpcode_le _, data⟩, data⟩
  | integer n range =>
    unfold ScriptItem.bytes ScriptItem.Reads ScriptItem.data pushInt
    dsimp only
    by_cases few : n = -1 ∨ 1 ≤ n ∧ n ≤ 16
    · have high : OP_PUSHDATA4 < UInt8.ofNat (n + 0x50).toNat := by
        rw [UInt8.lt_iff_toNat_lt, UInt8.toNat_ofNat']
        show 0x4e < _
        omega
      obtain ⟨op, bytes, same, noData⟩ := exists_bare (Or.inr high)
      simp only [if_pos few]
      exact ⟨op, bytes, by rw [same, noData], noData⟩
    · simp only [if_neg few]
      by_cases isZero : n = 0
      · obtain ⟨op, bytes, same, noData⟩ := exists_bare (Or.inl rfl)
        simp only [if_pos isZero]
        exact ⟨op, bytes, by rw [same, noData], noData⟩
      · have magnitude : n.natAbs < 2 ^ 64 := by omega
        have short : (CScriptNum.serialize n).length ≤ 9 := (CScriptNum.length_serialize_le_iff magnitude 8).mpr (by omega)
        obtain ⟨op, bytes, data, opcode⟩ := exists_pushOperation (Nat.lt_of_le_of_lt short (by decide))
        simp only [if_neg isZero]
        refine ⟨op, bytes, ⟨opcode ▸ pushOpcode_le _, ?_⟩, data⟩
        rw [data]
        exact CScriptNum.setVch_serialize magnitude

theorem exists_operations : ∃ ops : List Operation, assemble ops = build items ∧ (Bits32.Reaches ops ↔ ItemsFit items) ∧
    List.Forall₂ ScriptItem.Reads items (ops.map fun op => (op.opcode, op.data)) := by
  induction items with
  | nil => exact ⟨[], rfl, Iff.rfl, .nil⟩
  | cons item items ih =>
    obtain ⟨ops, script, reaches, reads⟩ := ih
    obtain ⟨op, bytes, first, data⟩ := exists_item_operation item
    refine ⟨op :: ops, ?_, ?_, .cons first reads⟩
    · rw [assemble_cons, build_cons, bytes, script]
    · rw [Bits32.Reaches, ItemsFit, data, script, reaches]

theorem length_assemble (ops : List Operation) : ops.length ≤ (assemble ops).length := by
  induction ops with
  | nil => exact Nat.le_refl _
  | cons op ops ih =>
    rw [assemble_cons, List.length_append, List.length_cons, Operation.bytes, List.length_cons]
    omega

theorem parsesBack_iff_fits : ParsesBack items ↔ ItemsFit items := by
  obtain ⟨ops, script, reaches, reads⟩ := exists_operations items
  have here : (build items).drop 0 = assemble ops := script.symm
  have enough : ops.length < (build items).length + 1 := by
    rw [← script]
    exact Nat.lt_succ_of_le (length_assemble ops)
  obtain ⟨found, last, run, all, fewer⟩ := Bits32.iterate_assemble (Nat.zero_le _) here enough
  rw [← reaches]
  constructor
  · intro ⟨found', run', reads'⟩
    obtain ⟨rfl, -⟩ := Prod.mk.inj (Except.ok.inj (run.symm.trans run'))
    by_contra unmet
    have length := reads.length_eq
    rw [List.length_map] at length
    have less := fewer unmet
    rw [← reads'.length_eq, length] at less
    exact Nat.lt_irrefl _ less
  · intro met
    obtain ⟨same, isEnd⟩ := all met
    exact ⟨found, by rw [run, isEnd], same ▸ reads⟩

/-- A script parses back exactly when no push is followed by so much that its size is lost in 32 bits, and no read leaves its script. -/
theorem script_parsesBack (items : List ScriptItem) : (ParsesBack items ↔ ItemsFit items) ∧
    ∀ (s : CScript) (pc : Nat), pc ≤ s.length →
      ∃ r, Bits32.getOp2 s pc = .ok r ∧ pc ≤ r.pc ∧ r.pc ≤ s.length ∧ (r.found = true → pc < r.pc) :=
  ⟨parsesBack_iff_fits items, fun _ _ => Bits32.getOp2_inside⟩

theorem script_parsesBack_one : ∃ r, Bits32.getOp2 [OP_1] 0 = .ok r ∧ 0 ≤ r.pc ∧ r.pc ≤ 1 ∧ (r.found = true → 0 < r.pc) :=
  (script_parsesBack []).2 [OP_1] 0 (by decide)

/-- A vector of the greatest size, followed by one operation. -/
theorem long_push_lost : ¬∀ items, ParsesBack items := by
  intro always
  have small : (List.replicate (2 ^ 32 - 1) (0 : UInt8)).length < 2 ^ 32 := by
    rw [List.length_replicate]
    decide
  obtain ⟨first, -⟩ := (parsesBack_iff_fits [.vector _ small, .opcode OP_1 (Or.inr (by decide))]).mp (always _)
  have after : (build [.opcode OP_1 (Or.inr (by decide))]).length = 1 := rfl
  rw [after] at first
  unfold ScriptItem.data at first
  rw [List.length_replicate] at first
  exact absurd first (by decide)

end CScript

end SchillingCoin
