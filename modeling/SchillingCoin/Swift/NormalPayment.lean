import SchillingCoin.Script.Destination
import SchillingCoin.Swift.SwiftTX

/-!
The test for a payment to a public key hash, after `IsNormalPaymentScript`.
-/

namespace SchillingCoin

namespace CScript

def PaysToKeyID (s : CScript) : Prop := ∃ key, s = getScriptForDestination key

def tails : List CScript := [[], [OP_EQUALVERIFY], [OP_EQUALVERIFY, OP_CHECKSIG]]

def PushThenTail (s : CScript) (op : Operation) : Prop :=
  op.opcode ≤ OP_PUSHDATA4 ∧ ∃ tail ∈ tails, s = OP_DUP :: OP_HASH160 :: (op.bytes ++ tail)

def SlipsThrough (s : CScript) : Prop := s.length = 25 ∧ ∃ op, PushThenTail s op ∧ op.opcode ≠ 20

variable {s : CScript} {pc : Nat} {r : GetOpResult}

theorem lt_of_drop_ne_nil (more : s.drop pc ≠ []) : pc < s.length := by
  by_contra past
  exact more (List.drop_eq_nil_of_le (Nat.le_of_not_lt past))

theorem ReadsAt.plain (reads : ReadsAt s pc r) (high : OP_PUSHDATA4 < r.opcode)
    (known : r.opcode ≠ OP_INVALIDOPCODE) : s.drop pc = r.opcode :: s.drop (pc + 1) ∧ r.pc = pc + 1 := by
  have found : r.found = true := by
    by_contra missing
    exact known (reads.nothing (by simpa using missing)).2.1
  obtain ⟨forward, operation⟩ := reads.operation found
  obtain ⟨op, opcode, -, bytes⟩ := exists_operation operation
  have one : op.bytes = [r.opcode] := by rw [← opcode] at high ⊢; exact Operation.bytes_of_high high
  rw [one, List.singleton_append] at bytes
  have length := congrArg List.length bytes
  have inside := reads.inside
  rw [List.length_cons, List.length_drop, List.length_drop] at length
  have next : r.pc = pc + 1 := by omega
  rw [next] at bytes
  exact ⟨bytes, next⟩

theorem getOp2_plain (high : OP_PUSHDATA4 < opcode) (here : s.drop pc = opcode :: rest) :
    getOp2 s pc = .ok ⟨true, opcode, [], pc + 1⟩ := by
  have there : pc < s.length := lt_of_drop_ne_nil (by simp [here])
  have byte : s[pc]? = some opcode := by
    have first := congrArg List.head? here
    rwa [List.head?_drop] at first
  rw [getOp2, if_neg (Nat.not_le.mpr there), Access.element_ok byte]
  dsimp only [Except.bind]
  rw [if_neg (UInt8.not_le.mpr high)]

theorem getOp2_failed (read : getOp2 s pc = .ok r) (failed : r.found = false) : r.pc ≤ pc + 5 := by
  have data {opcode : UInt8} {nSize start : Nat} (read : getOpData s opcode nSize start = .ok r) : r.pc = start := by
    unfold getOpData at read
    split at read
    · cases read
      rfl
    · unfold Access.range at read
      split at read
      · cases read
        cases failed
      · cases read
  have width (opcode : UInt8) : sizeWidth opcode ≤ 4 := by
    unfold sizeWidth
    split_ifs <;> omega
  unfold getOp2 at read
  split at read
  · cases read
    exact Nat.le_add_right _ _
  · unfold Access.element at read
    split at read
    · cases read
    · next opcode _ =>
      dsimp only [Except.bind] at read
      split at read
      · unfold getOpSized at read
        split at read
        · have := data read
          omega
        · split at read
          · cases read
            exact Nat.add_le_add_left (by omega) pc
          · unfold Access.range at read
            split at read
            · have := data read
              have := width opcode
              omega
            · cases read
      · cases read
        cases failed

section Loop

variable {s : CScript} {rounds pc : Nat}

theorem isNormalPaymentFromAt_ended (ended : s.drop pc = []) (i : Nat) : isNormalPaymentFromAt s (rounds + 1) i pc = .ok true := by
  rw [isNormalPaymentFromAt, if_neg (by have := List.drop_eq_nil_iff.mp ended; omega)]

theorem isNormalPaymentFromAt_five (inside : pc ≤ s.length) : isNormalPaymentFromAt s (rounds + 1) 5 pc = .ok (decide (s.drop pc = [])) := by
  by_cases ended : s.drop pc = []
  · rw [isNormalPaymentFromAt_ended ended, decide_eq_true ended]
  · obtain ⟨r, read, -⟩ := getOp2_reads inside
    rw [isNormalPaymentFromAt, if_pos (lt_of_drop_ne_nil ended), read, decide_eq_false ended]
    simp [Except.bind]

theorem byte_then {rests : List CScript} (high : OP_PUSHDATA4 < opcode) (known : opcode ≠ OP_INVALIDOPCODE)
    (inside : pc ≤ s.length) (read : getOp2 s pc = .ok r) (more : s.drop pc ≠ [])
    (later : ∀ p ≤ s.length, isNormalPaymentFromAt s rounds (i + 1) p = .ok (decide (s.drop p ∈ rests))) :
    (if r.opcode ≠ opcode then .ok false else isNormalPaymentFromAt s rounds (i + 1) r.pc) =
      .ok (decide (s.drop pc ∈ [] :: rests.map (opcode :: ·))) := by
  obtain ⟨r', read', reads⟩ := getOp2_reads inside
  obtain rfl : r' = r := Except.ok.inj (read'.symm.trans read)
  by_cases same : r'.opcode = opcode
  · subst same
    obtain ⟨bytes, next⟩ := reads.plain high known
    rw [if_neg (by simp), later _ reads.inside, next]
    congr 1
    rw [decide_eq_decide, bytes]
    simp
  · rw [if_pos same]
    congr 1
    symm
    rw [decide_eq_false_iff_not]
    intro among
    rcases List.mem_cons.mp among with ended | among
    · exact more ended
    · obtain ⟨rest, -, here⟩ := List.mem_map.mp among
      rw [getOp2_plain high here.symm] at read
      exact same (congrArg GetOpResult.opcode (Except.ok.inj read)).symm

theorem isNormalPaymentFromAt_four (inside : pc ≤ s.length) :
    isNormalPaymentFromAt s (rounds + 2) 4 pc = .ok (decide (s.drop pc ∈ [[], [OP_CHECKSIG]])) := by
  by_cases ended : s.drop pc = []
  · rw [isNormalPaymentFromAt_ended ended, ended]
    rfl
  · obtain ⟨r, read, -⟩ := getOp2_reads inside
    have later : ∀ p ≤ s.length, isNormalPaymentFromAt s (rounds + 1) 5 p = .ok (decide (s.drop p ∈ [[]])) := by
      intro p inside
      rw [isNormalPaymentFromAt_five inside]
      simp
    rw [isNormalPaymentFromAt, if_pos (lt_of_drop_ne_nil ended), read]
    simpa [Except.bind] using byte_then (i := 4) (show OP_PUSHDATA4 < OP_CHECKSIG by decide) (by decide) inside read ended later

theorem isNormalPaymentFromAt_three (inside : pc ≤ s.length) :
    isNormalPaymentFromAt s (rounds + 3) 3 pc = .ok (decide (s.drop pc ∈ tails)) := by
  by_cases ended : s.drop pc = []
  · rw [isNormalPaymentFromAt_ended ended, ended]
    rfl
  · obtain ⟨r, read, -⟩ := getOp2_reads inside
    rw [isNormalPaymentFromAt, if_pos (lt_of_drop_ne_nil ended), read]
    simpa [Except.bind, tails] using byte_then (i := 3) (show OP_PUSHDATA4 < OP_EQUALVERIFY by decide) (by decide) inside read ended
      fun p inside => isNormalPaymentFromAt_four inside

end Loop

theorem third_operation (size : s.length = 25) (read : getOp2 s 2 = .ok r) :
    s.drop r.pc ∈ tails ↔ ∃ op : Operation, op.opcode ≤ OP_PUSHDATA4 ∧ ∃ tail ∈ tails, s.drop 2 = op.bytes ++ tail := by
  obtain ⟨r', read', reads⟩ := getOp2_reads (show 2 ≤ s.length by omega)
  obtain rfl : r' = r := Except.ok.inj (read'.symm.trans read)
  have short {tail : CScript} (among : tail ∈ tails) : tail.length ≤ 2 := by
    simp only [tails, List.mem_cons, List.not_mem_nil, or_false] at among
    rcases among with rfl | rfl | rfl <;> simp
  constructor
  · intro among
    have left := short among
    rw [List.length_drop] at left
    cases found : r'.found with
    | false =>
      have := getOp2_failed read found
      omega
    | true =>
      obtain ⟨op, -, -, bytes⟩ := exists_operation (reads.operation found).2
      refine ⟨op, ?_, _, among, bytes⟩
      by_contra plain
      rw [Operation.bytes_of_high (UInt8.not_le.mp plain)] at bytes
      have length := congrArg List.length bytes
      rw [List.length_append, List.length_singleton, List.length_drop, List.length_drop] at length
      omega
  · rintro ⟨op, -, tail, among, bytes⟩
    have operation := getOp_bytes op tail
    rw [← bytes] at operation
    have found : r'.found = true := by
      by_contra missing
      rw [(reads.nothing (by simpa using missing)).1] at operation
      cases operation
    have rest := operation.symm.trans (reads.operation found).2
    obtain ⟨-, -, rfl⟩ : op.opcode = r'.opcode ∧ op.data = r'.data ∧ tail = s.drop r'.pc := by simpa using rest
    exact among

theorem first_byte (high : OP_PUSHDATA4 < opcode) (known : opcode ≠ OP_INVALIDOPCODE) (inside : pc ≤ s.length)
    (read : getOp2 s pc = .ok r) : r.opcode = opcode ↔ s.drop pc = opcode :: s.drop (pc + 1) ∧ r.pc = pc + 1 := by
  constructor
  · rintro rfl
    obtain ⟨r', read', reads⟩ := getOp2_reads inside
    obtain rfl : r' = r := Except.ok.inj (read'.symm.trans read)
    exact reads.plain high known
  · rintro ⟨bytes, -⟩
    rw [getOp2_plain high bytes] at read
    exact (congrArg GetOpResult.opcode (Except.ok.inj read)).symm

theorem isNormalPaymentScriptAt_eq (s : CScript) :
    ∃ accepted, isNormalPaymentScriptAt s = .ok accepted ∧ (accepted = true ↔ s.length = 25 ∧ ∃ op, PushThenTail s op) := by
  rw [isNormalPaymentScriptAt]
  by_cases size : s.length = 25
  · obtain ⟨n, rounds⟩ : ∃ n, s.length + 1 = n + 6 := ⟨20, by omega⟩
    rw [if_neg (by simpa using size), rounds]
    obtain ⟨r0, read0, -⟩ := getOp2_reads (show 0 ≤ s.length by omega)
    obtain ⟨r1, read1, -⟩ := getOp2_reads (show 1 ≤ s.length by omega)
    obtain ⟨r2, read2, reads2⟩ := getOp2_reads (show 2 ≤ s.length by omega)
    have byte0 : r0.opcode = OP_DUP ↔ _ := first_byte (by decide) (by decide) (by omega) read0
    have byte1 : r1.opcode = OP_HASH160 ↔ _ := first_byte (by decide) (by decide) (by omega) read1
    rw [isNormalPaymentFromAt, if_pos (by omega), read0]
    simp only [Except.bind]
    by_cases dup : r0.opcode = OP_DUP
    · obtain ⟨bytes0, next0⟩ := byte0.mp dup
      rw [if_neg (by simp [dup]), if_neg (by simp), if_neg (by simp), if_neg (by simp), if_neg (by simp), next0, isNormalPaymentFromAt,
        if_pos (by omega), read1]
      simp only [Except.bind]
      by_cases hash : r1.opcode = OP_HASH160
      · obtain ⟨bytes1, next1⟩ := byte1.mp hash
        rw [if_neg (by simp), if_neg (by simp [hash]), if_neg (by simp), if_neg (by simp), if_neg (by simp), next1, isNormalPaymentFromAt,
          if_pos (by omega), read2]
        simp only [Except.bind]
        rw [if_neg (by simp), if_neg (by simp), if_neg (by simp), if_neg (by simp), if_neg (by simp),
          isNormalPaymentFromAt_three reads2.inside]
        refine ⟨_, rfl, ?_⟩
        have whole : s = OP_DUP :: OP_HASH160 :: s.drop 2 := by
          rw [← bytes1, ← bytes0, List.drop_zero]
        rw [decide_eq_true_iff, third_operation size read2]
        constructor
        · rintro ⟨op, push, tail, among, bytes⟩
          exact ⟨size, op, push, tail, among, by rw [← bytes]; exact whole⟩
        · rintro ⟨-, op, push, tail, among, bytes⟩
          exact ⟨op, push, tail, among, by rw [bytes]; rfl⟩
      · rw [if_neg (by simp), if_pos ⟨trivial, hash⟩]
        refine ⟨_, rfl, by simp, ?_⟩
        rintro ⟨-, op, -, tail, -, bytes⟩
        refine absurd (byte1.mpr ⟨by rw [bytes]; rfl, ?_⟩) hash
        have here : s.drop 1 = OP_HASH160 :: (op.bytes ++ tail) := by rw [bytes]; rfl
        rw [getOp2_plain (by decide) here] at read1
        exact (congrArg GetOpResult.pc (Except.ok.inj read1)).symm
    · rw [if_pos ⟨trivial, dup⟩]
      refine ⟨_, rfl, by simp, ?_⟩
      rintro ⟨-, op, -, tail, -, bytes⟩
      refine absurd (byte0.mpr ⟨by rw [bytes]; rfl, ?_⟩) dup
      have here : s.drop 0 = OP_DUP :: OP_HASH160 :: (op.bytes ++ tail) := by rw [bytes]; rfl
      rw [getOp2_plain (by decide) here] at read0
      exact (congrArg GetOpResult.pc (Except.ok.inj read0)).symm
  · rw [if_pos size]
    exact ⟨false, rfl, by simp [size]⟩

theorem isNormalPaymentScriptAt_ok (s : CScript) : isNormalPaymentScriptAt s = .ok (isNormalPaymentScript s) := by
  obtain ⟨accepted, done, _⟩ := isNormalPaymentScriptAt_eq s
  rw [isNormalPaymentScript, done]
  rfl

theorem paysToKeyID_iff (s : CScript) : PaysToKeyID s ↔ s.length = 25 ∧ ∃ op, PushThenTail s op ∧ op.opcode = 20 := by
  constructor
  · rintro ⟨key, rfl⟩
    have small : key.bytes.length < 0x4c := by rw [key.size]; decide
    have holds : CanHold 20 key.bytes := by
      rw [CanHold, if_pos (by decide), key.size]
      rfl
    have bytes : pushData key.bytes = Operation.bytes ⟨20, key.bytes, holds⟩ := by
      rw [Operation.bytes_of_short (show (20 : UInt8) < OP_PUSHDATA1 by decide), pushData, if_pos small, key.size]
      rfl
    refine ⟨by simp [getScriptForDestination, pushData, key.size], ⟨20, key.bytes, holds⟩, ⟨?_, [OP_EQUALVERIFY, OP_CHECKSIG], ?_, ?_⟩, rfl⟩
    · show (20 : UInt8) ≤ OP_PUSHDATA4
      decide
    · simp [tails]
    rw [getScriptForDestination, bytes]
    simp [OP_DUP, OP_HASH160, OP_EQUALVERIFY, OP_CHECKSIG]
  · rintro ⟨size, op, ⟨-, tail, among, rfl⟩, twenty⟩
    have data : op.data.length = 20 := by
      have holds := op.holds
      rw [CanHold, twenty, if_pos (by decide)] at holds
      exact holds.symm
    have bytes : op.bytes = 20 :: op.data := by
      rw [Operation.bytes_of_short (by rw [twenty]; decide), twenty]
    rw [bytes] at size ⊢
    simp only [List.length_cons, List.length_append, data] at size
    simp only [tails, List.mem_cons, List.not_mem_nil, or_false] at among
    refine ⟨⟨op.data, data⟩, ?_⟩
    rcases among with rfl | rfl | rfl
    · simp at size
    · simp at size
    · simp [getScriptForDestination, pushData, data, OP_DUP, OP_HASH160, OP_EQUALVERIFY, OP_CHECKSIG]

theorem PushThenTail.unique (one : PushThenTail s op) (other : PushThenTail s op') : op = op' := by
  obtain ⟨-, tail, -, rfl⟩ := one
  obtain ⟨-, tail', -, same⟩ := other
  exact (bytes_append_inj (List.cons.inj (List.cons.inj same).2).2).1

/-- The test is exact on the scripts that do not slip through. -/
theorem normal_payment_exact (s : CScript) : ∃ accepted, isNormalPaymentScriptAt s = .ok accepted ∧
    ((accepted = true ↔ PaysToKeyID s) ↔ ¬SlipsThrough s) := by
  obtain ⟨accepted, done, passes⟩ := isNormalPaymentScriptAt_eq s
  refine ⟨accepted, done, ?_⟩
  rw [passes, paysToKeyID_iff]
  constructor
  · rintro same ⟨size, op, pushed, other⟩
    obtain ⟨-, op', pushed', twenty⟩ := same.mp ⟨size, op, pushed⟩
    rw [pushed.unique pushed'] at other
    exact other twenty
  · intro exact_
    constructor
    · rintro ⟨size, op, pushed⟩
      by_contra missing
      exact exact_ ⟨size, op, pushed, fun twenty => missing ⟨size, op, pushed, twenty⟩⟩
    · rintro ⟨size, op, pushed, -⟩
      exact ⟨size, op, pushed⟩

/-- A push of twenty-two bytes to the end of the script. -/
theorem normal_payment_without_check :
    isNormalPaymentScriptAt (OP_DUP :: OP_HASH160 :: 22 :: List.replicate 22 0) = .ok true ∧
      ¬PaysToKeyID (OP_DUP :: OP_HASH160 :: 22 :: List.replicate 22 0) := by
  refine ⟨by decide, ?_⟩
  rintro ⟨key, same⟩
  have small : key.bytes.length < 0x4c := by rw [key.size]; decide
  rw [getScriptForDestination, pushData, if_pos small, key.size] at same
  simp at same

end CScript

end SchillingCoin
