import SchillingCoin.Script.SigOps

/-!
Reading a script through iterators, after `GetOp2` and `IsPushOnly`. An iterator is a position of the script, and a read or a range
outside the script is a fault.
-/

namespace SchillingCoin

inductive Fault where
  /-- An element that is not there: `at`, `operator[]`, `front`, `back`, or an iterator past the end. -/
  | outOfRange
  | emptyStack
  | overflow
  | assertion
  /-- A loop that has not ended. -/
  | unfinished
  deriving DecidableEq, Repr

namespace Access

variable {α : Type}

def element (v : List α) (i : Nat) : Except Fault α :=
  match v[i]? with
  | none => .error .outOfRange
  | some a => .ok a

def range (v : List α) (first last : Nat) : Except Fault (List α) :=
  if first ≤ last ∧ last ≤ v.length then .ok ((v.take last).drop first) else .error .outOfRange

theorem element_ok (there : v[i]? = some a) : element v i = .ok a := by
  simp only [element, there]

theorem range_ok (order : first ≤ last) (inside : last ≤ v.length) :
    range v first last = .ok ((v.drop first).take (last - first)) := by
  rw [range, if_pos ⟨order, inside⟩, List.drop_take]

end Access

namespace CScript

open Access

structure GetOpResult where
  found : Bool
  opcode : UInt8
  data : valtype
  pc : Nat
  deriving DecidableEq, Repr

def notFound (pc : Nat) : GetOpResult := ⟨false, OP_INVALIDOPCODE, [], pc⟩

def getOpData (s : CScript) (opcode : UInt8) (nSize pc : Nat) : Except Fault GetOpResult :=
  if s.length - pc < nSize then .ok (notFound pc)
  else (range s pc (pc + nSize)).map fun data => ⟨true, opcode, data, pc + nSize⟩

def getOpSized (s : CScript) (opcode : UInt8) (pc : Nat) : Except Fault GetOpResult :=
  if opcode < OP_PUSHDATA1 then getOpData s opcode opcode.toNat pc
  else if s.length - pc < sizeWidth opcode then .ok (notFound pc)
  else (range s pc (pc + sizeWidth opcode)).bind fun size => getOpData s opcode (littleEndian size) (pc + sizeWidth opcode)

def getOp2 (s : CScript) (pc : Nat) : Except Fault GetOpResult :=
  if s.length ≤ pc then .ok (notFound pc)
  else (element s pc).bind fun opcode =>
    if opcode ≤ OP_PUSHDATA4 then getOpSized s opcode (pc + 1) else .ok ⟨true, opcode, [], pc + 1⟩

def isPushOnlyAt (s : CScript) : Nat → Nat → Except Fault Bool
  | 0, _ => .error .unfinished
  | n + 1, pc =>
    if s.length ≤ pc then .ok true
    else (getOp2 s pc).bind fun r =>
      if r.found = false then .ok false
      else if r.opcode > OP_16 then .ok false
      else isPushOnlyAt s n r.pc

/-- What `GetOp2` gives at a position is what is read from the rest of the script, and the iterator stays in the script. -/
structure ReadsAt (s : CScript) (pc : Nat) (r : GetOpResult) : Prop where
  inside : r.pc ≤ s.length
  forward : pc ≤ r.pc
  operation : r.found = true → pc < r.pc ∧ getOp (s.drop pc) = some (r.opcode, r.data, s.drop r.pc)
  nothing : r.found = false → getOp (s.drop pc) = none ∧ r.opcode = OP_INVALIDOPCODE ∧ r.data = []

theorem reads_nothing (forward : pc ≤ pc') (inside : pc' ≤ s.length) (nothing : getOp (s.drop pc) = none) :
    ReadsAt s pc (notFound pc') where
  inside := inside
  forward := forward
  operation found := nomatch found
  nothing _ := ⟨nothing, rfl, rfl⟩

theorem reads_operation (forward : pc < pc') (inside : pc' ≤ s.length)
    (read : getOp (s.drop pc) = some (opcode, data, s.drop pc')) : ReadsAt s pc ⟨true, opcode, data, pc'⟩ where
  inside := inside
  forward := Nat.le_of_lt forward
  operation _ := ⟨forward, read⟩
  nothing found := nomatch found

theorem getOp_pushes (push : opcode ≤ OP_PUSHDATA4) (pc : CScript) : getOp (opcode :: pc) =
    (getPushSize opcode pc).bind fun sized =>
      if sized.2.length < sized.1 then none else some (opcode, sized.2.take sized.1, sized.2.drop sized.1) := by
  rw [getOp, if_pos push]
  rfl

theorem getOpData_reads (push : opcode ≤ OP_PUSHDATA4) (here : s.drop pc = opcode :: rest) (later : pc < start)
    (inside : start ≤ s.length) (sized : getPushSize opcode rest = some (nSize, s.drop start)) :
    ∃ r, getOpData s opcode nSize start = .ok r ∧ ReadsAt s pc r := by
  have read := getOp_pushes push rest
  rw [← here, sized, Option.bind_some] at read
  dsimp only at read
  rw [List.length_drop] at read
  unfold getOpData
  by_cases short : s.length - start < nSize
  · rw [if_pos short] at read ⊢
    exact ⟨_, rfl, reads_nothing (Nat.le_of_lt later) inside read⟩
  · rw [if_neg short] at read ⊢
    rw [range_ok (Nat.le_add_right _ _) (by omega), Nat.add_sub_cancel_left]
    refine ⟨_, rfl, reads_operation (by omega) (by omega) ?_⟩
    rw [read, List.drop_drop]

theorem getOp2_reads (inside : pc ≤ s.length) : ∃ r, getOp2 s pc = .ok r ∧ ReadsAt s pc r := by
  unfold getOp2
  by_cases ended : s.length ≤ pc
  · rw [if_pos ended]
    have nothing : getOp (s.drop pc) = none := by
      rw [List.drop_eq_nil_of_le ended]
      rfl
    exact ⟨_, rfl, reads_nothing (Nat.le_refl _) inside nothing⟩
  · have there : pc < s.length := Nat.lt_of_not_le ended
    have here : s.drop pc = s[pc] :: s.drop (pc + 1) := List.drop_eq_getElem_cons there
    rw [if_neg ended, element_ok (List.getElem?_eq_getElem there)]
    dsimp only [Except.bind]
    generalize s[pc] = opcode at here ⊢
    by_cases push : opcode ≤ OP_PUSHDATA4
    · rw [if_pos push]
      have rest : (s.drop (pc + 1)).length = s.length - (pc + 1) := List.length_drop
      unfold getOpSized
      by_cases short : opcode < OP_PUSHDATA1
      · rw [if_pos short]
        exact getOpData_reads push here (Nat.lt_succ_self _) there (by rw [getPushSize, if_pos short])
      · rw [if_neg short]
        by_cases enough : s.length - (pc + 1) < sizeWidth opcode
        · rw [if_pos enough]
          have nothing : getOp (s.drop pc) = none := by
            rw [here, getOp_pushes push, getPushSize, if_neg short, rest, if_pos enough]
            rfl
          exact ⟨_, rfl, reads_nothing (Nat.le_succ _) there nothing⟩
        · rw [if_neg enough, range_ok (Nat.le_add_right _ _) (by omega), Nat.add_sub_cancel_left]
          refine getOpData_reads push here (by omega) (by omega) ?_
          rw [getPushSize, if_neg short, rest, if_neg enough, List.drop_drop]
    · rw [if_neg push]
      have read : getOp (s.drop pc) = some (opcode, [], s.drop (pc + 1)) := by
        rw [here]
        exact getOp_plain push _
      exact ⟨_, rfl, reads_operation (Nat.lt_succ_self _) there read⟩

theorem isPushOnlyAt_eq (enough : s.length - pc < n) (enough' : s.length - pc ≤ m) (inside : pc ≤ s.length) :
    isPushOnlyAt s n pc = .ok (isPushOnlyFrom m (s.drop pc)) := by
  induction n generalizing m pc with
  | zero => omega
  | succ n ih =>
    rw [isPushOnlyAt]
    by_cases ended : s.length ≤ pc
    · rw [if_pos ended, List.drop_eq_nil_of_le ended]
      cases m <;> rfl
    · rw [if_neg ended]
      obtain ⟨m, rfl⟩ : ∃ k, m = k + 1 := ⟨m - 1, by omega⟩
      have here : s.drop pc = s.get ⟨pc, Nat.lt_of_not_le ended⟩ :: s.drop (pc + 1) := List.drop_eq_getElem_cons (Nat.lt_of_not_le ended)
      obtain ⟨r, read, reads⟩ := getOp2_reads inside
      rw [read, here]
      simp only [isPushOnlyFrom]
      rw [← here]
      dsimp only [Except.bind]
      cases found : r.found with
      | false =>
        rw [if_pos rfl, (reads.nothing found).1]
      | true =>
        obtain ⟨forward, operation⟩ := reads.operation found
        have inside' := reads.inside
        rw [if_neg (by simp), operation]
        dsimp only
        by_cases high : r.opcode > OP_16
        · rw [if_pos high, decide_eq_true high]
          rfl
        · rw [if_neg high, decide_eq_false high, ih (m := m) (by omega) (by omega) inside']
          rfl

end CScript

end SchillingCoin
