import SchillingCoin.Script.Interpreter

/-!
Rules for the runs of a script: the equation of the loop, and for operations what a run that succeeds
says about the state before the operation and the run after it.
-/

namespace SchillingCoin

namespace EvalContext

variable {ctx : EvalContext}

theorem evalLoop_enough (hn : pc.length ≤ n) (hm : pc.length ≤ m) : ctx.evalLoop n pc st = ctx.evalLoop m pc st := by
  induction n generalizing m pc st with
  | zero =>
    obtain rfl := List.eq_nil_of_length_eq_zero (Nat.le_zero.mp hn)
    simp [evalLoop]
  | succ n ih =>
    cases pc with
    | nil => simp [evalLoop]
    | cons b pc =>
      obtain _ | m := m
      · exact absurd hm (by simp)
      · simp only [evalLoop]
        cases op : CScript.getOp (b :: pc) with
        | none => rfl
        | some read =>
          obtain ⟨opcode, data, rest⟩ := read
          have shorter := CScript.getOp_length op
          simp only [bind, Except.bind]
          cases ctx.evalOp opcode data rest st with
          | error e => rfl
          | ok st => exact ih (by omega) (by omega)

@[simp] theorem evalFrom_nil (st : EvalState) : ctx.evalFrom [] st = .ok st := rfl

variable {rest : CScript} {opcode : UInt8} {data : valtype}

theorem evalFrom_getOp (read : CScript.getOp pc = some (opcode, data, rest)) (st : EvalState) :
    ctx.evalFrom pc st = (ctx.evalOp opcode data rest st >>= ctx.evalFrom rest) := by
  have shorter := CScript.getOp_length read
  cases pc with
  | nil => cases read
  | cons b pc =>
    simp only [evalFrom, List.length_cons, evalLoop, read]
    congr 1
    funext st
    exact evalLoop_enough (by simp only [List.length_cons] at shorter; omega) (Nat.le_refl _)

theorem evalOp_ok (h : ctx.evalOp opcode data rest st = .ok st') :
    ∃ nOpCount, ctx.dispatch opcode data rest { st with nOpCount } = .ok st' := by
  obtain ⟨_, h⟩ := Checked.after_refuse h
  obtain ⟨_, h⟩ := Checked.after_refuse h
  obtain ⟨_, h⟩ := Checked.after_refuse h
  obtain ⟨mid, dispatched, h⟩ := Checked.bind_ok h
  obtain ⟨_, h⟩ := Checked.after_refuse h
  exact ⟨_, dispatched.trans h⟩

theorem dispatch_executed (st : EvalState) (executed : st.vfExec.all id = true)
    (plain : ¬opcode ≤ OP_PUSHDATA4) :
    ctx.dispatch opcode data rest st = ctx.execute (.ofByte opcode) true rest st := by
  simp [dispatch, executed, plain]

theorem dispatch_conditional (st : EvalState) (inside : OP_IF ≤ opcode ∧ opcode ≤ OP_ENDIF) :
    ctx.dispatch opcode data rest st = ctx.execute (.ofByte opcode) (st.vfExec.all id) rest st := by
  have plain : ¬opcode ≤ OP_PUSHDATA4 := by
    intro push
    exact absurd (UInt8.le_trans inside.1 push) (by decide)
  simp [dispatch, inside, plain]

theorem dispatch_skipped (st : EvalState) (skipped : st.vfExec.all id = false)
    (outside : ¬(OP_IF ≤ opcode ∧ opcode ≤ OP_ENDIF)) : ctx.dispatch opcode data rest st = .ok st := by
  simp only [dispatch, skipped, Bool.false_and, Bool.false_eq_true, if_false, Bool.false_or, Bool.and_eq_true,
    decide_eq_true_eq, outside]

section Rules

variable {pc : CScript} {st last : EvalState}

variable {opcode : UInt8}

theorem run_plain (plain : ¬opcode ≤ OP_PUSHDATA4) (h : ctx.evalFrom (opcode :: pc) st = .ok last) :
    ∃ nOpCount mid, ctx.dispatch opcode [] pc { st with nOpCount } = .ok mid ∧ ctx.evalFrom pc mid = .ok last := by
  rw [evalFrom_getOp (CScript.getOp_plain plain pc)] at h
  obtain ⟨mid, first, rest⟩ := Checked.bind_ok h
  obtain ⟨nOpCount, dispatched⟩ := evalOp_ok first
  exact ⟨nOpCount, mid, dispatched, rest⟩

theorem run_executed (known : .ofByte opcode = c) (executed : st.vfExec.all id = true) (plain : ¬opcode ≤ OP_PUSHDATA4)
    (h : ctx.evalFrom (opcode :: pc) st = .ok last) :
    ∃ nOpCount mid, ctx.execute c true pc { st with nOpCount } = .ok mid ∧ ctx.evalFrom pc mid = .ok last := by
  obtain ⟨nOpCount, mid, dispatched, rest⟩ := run_plain plain h
  rw [dispatch_executed { st with nOpCount } executed plain, known] at dispatched
  exact ⟨nOpCount, mid, dispatched, rest⟩

theorem run_conditional (known : .ofByte opcode = c) (inside : OP_IF ≤ opcode ∧ opcode ≤ OP_ENDIF)
    (plain : ¬opcode ≤ OP_PUSHDATA4) (h : ctx.evalFrom (opcode :: pc) st = .ok last) :
    ∃ nOpCount mid, ctx.execute c (st.vfExec.all id) pc { st with nOpCount } = .ok mid ∧
      ctx.evalFrom pc mid = .ok last := by
  obtain ⟨nOpCount, mid, dispatched, rest⟩ := run_plain plain h
  rw [dispatch_conditional { st with nOpCount } inside, known] at dispatched
  exact ⟨nOpCount, mid, dispatched, rest⟩

theorem run_skipped (skipped : st.vfExec.all id = false) (plain : ¬opcode ≤ OP_PUSHDATA4)
    (outside : ¬(OP_IF ≤ opcode ∧ opcode ≤ OP_ENDIF)) (h : ctx.evalFrom (opcode :: pc) st = .ok last) :
    ∃ nOpCount, ctx.evalFrom pc { st with nOpCount } = .ok last := by
  obtain ⟨nOpCount, mid, dispatched, rest⟩ := run_plain plain h
  rw [dispatch_skipped { st with nOpCount } skipped outside] at dispatched
  obtain rfl := Except.ok.inj dispatched
  exact ⟨nOpCount, rest⟩

theorem run_push (short : opcode < OP_PUSHDATA1) (size : opcode.toNat = data.length)
    (h : ctx.evalFrom (opcode :: (data ++ pc)) st = .ok last) :
    ∃ nOpCount, ctx.evalFrom pc { st with nOpCount, stack := if st.vfExec.all id then data :: st.stack else st.stack } =
      .ok last := by
  have push : opcode ≤ OP_PUSHDATA4 := by
    have less : opcode < 0x4c := short
    exact UInt8.le_of_lt (UInt8.lt_trans less (by decide))
  have outside : ¬(OP_IF ≤ opcode ∧ opcode ≤ OP_ENDIF) := by
    rintro ⟨inside, _⟩
    exact absurd (UInt8.le_trans inside push) (by decide)
  rw [evalFrom_getOp (CScript.getOp_push short size pc)] at h
  obtain ⟨mid, first, rest⟩ := Checked.bind_ok h
  obtain ⟨nOpCount, dispatched⟩ := evalOp_ok first
  cases executed : st.vfExec.all id with
  | true =>
    simp only [dispatch, executed, push, decide_true, Bool.true_and, if_true] at dispatched
    obtain ⟨_, pushed⟩ := Checked.after_refuse dispatched
    obtain rfl := Except.ok.inj pushed
    exact ⟨nOpCount, rest⟩
  | false =>
    rw [dispatch_skipped { st with nOpCount } executed outside] at dispatched
    obtain rfl := Except.ok.inj dispatched
    exact ⟨nOpCount, rest⟩

theorem onStack_ok (h : st.onStack f = .ok mid) : ∃ stack, f st.stack = some stack ∧ mid = { st with stack } := by
  unfold EvalState.onStack at h
  split at h
  · cases h
  · rename_i stack found
    exact ⟨stack, found, (Except.ok.inj h).symm⟩

section

variable (executed : st.vfExec.all id = true)

include executed

theorem run_dup (h : ctx.evalFrom (0x76 :: pc) st = .ok last) :
    ∃ nOpCount x s, st.stack = x :: s ∧ ctx.evalFrom pc { st with nOpCount, stack := x :: x :: s } = .ok last := by
  obtain ⟨nOpCount, mid, done, rest⟩ := run_executed (c := .OP_DUP) rfl executed (by decide) h
  simp only [execute] at done
  obtain ⟨stack, found, rfl⟩ := onStack_ok done
  dsimp only at found
  split at found
  · rename_i x s shape
    obtain rfl := Option.some.inj found
    exact ⟨nOpCount, x, s, shape, rest⟩
  · cases found

theorem run_hash160 (h : ctx.evalFrom (0xa9 :: pc) st = .ok last) :
    ∃ nOpCount x s, st.stack = x :: s ∧
      ctx.evalFrom pc { st with nOpCount, stack := ctx.crypto.hash160 x :: s } = .ok last := by
  obtain ⟨nOpCount, mid, done, rest⟩ := run_executed (c := .OP_HASH160) rfl executed (by decide) h
  simp only [execute, hash] at done
  obtain ⟨stack, found, rfl⟩ := onStack_ok done
  dsimp only at found
  split at found
  · rename_i x s shape
    obtain rfl := Option.some.inj found
    exact ⟨nOpCount, x, s, shape, rest⟩
  · cases found

theorem run_rot (h : ctx.evalFrom (0x7b :: pc) st = .ok last) :
    ∃ nOpCount x₁ x₂ x₃ s, st.stack = x₃ :: x₂ :: x₁ :: s ∧
      ctx.evalFrom pc { st with nOpCount, stack := x₁ :: x₃ :: x₂ :: s } = .ok last := by
  obtain ⟨nOpCount, mid, done, rest⟩ := run_executed (c := .OP_ROT) rfl executed (by decide) h
  simp only [execute] at done
  obtain ⟨stack, found, rfl⟩ := onStack_ok done
  dsimp only at found
  split at found
  · rename_i x₃ x₂ x₁ s shape
    obtain rfl := Option.some.inj found
    exact ⟨nOpCount, x₁, x₂, x₃, s, shape, rest⟩
  · cases found

theorem run_if (h : ctx.evalFrom (0x63 :: pc) st = .ok last) :
    ∃ nOpCount x s, st.stack = x :: s ∧
      ctx.evalFrom pc { st with nOpCount, stack := s, vfExec := castToBool x :: st.vfExec } = .ok last := by
  obtain ⟨nOpCount, mid, done, rest⟩ := run_executed (c := .OP_IF) rfl executed (by decide) h
  have done : conditional false true { st with nOpCount } = .ok mid := done
  simp only [conditional, Bool.not_true, Bool.false_eq_true, if_false, Bool.xor_false] at done
  split at done
  · cases done
  · rename_i x s shape
    obtain rfl := Except.ok.inj done
    exact ⟨nOpCount, x, s, shape, rest⟩

end

theorem run_else (h : ctx.evalFrom (0x67 :: pc) st = .ok last) :
    ∃ nOpCount b outer, st.vfExec = b :: outer ∧
      ctx.evalFrom pc { st with nOpCount, vfExec := (!b) :: outer } = .ok last := by
  obtain ⟨nOpCount, mid, done, rest⟩ := run_conditional (c := .OP_ELSE) rfl (by decide) (by decide) h
  simp only [execute] at done
  split at done
  · cases done
  · rename_i b outer shape
    obtain rfl := Except.ok.inj done
    exact ⟨nOpCount, b, outer, shape, rest⟩

theorem run_endif (h : ctx.evalFrom (0x68 :: pc) st = .ok last) :
    ∃ nOpCount b outer, st.vfExec = b :: outer ∧ ctx.evalFrom pc { st with nOpCount, vfExec := outer } = .ok last := by
  obtain ⟨nOpCount, mid, done, rest⟩ := run_conditional (c := .OP_ENDIF) rfl (by decide) (by decide) h
  simp only [execute] at done
  split at done
  · cases done
  · rename_i b outer shape
    obtain rfl := Except.ok.inj done
    exact ⟨nOpCount, b, outer, shape, rest⟩

theorem run_checkColdStakeVerify (executed : st.vfExec.all id = true) (h : ctx.evalFrom (0xd1 :: pc) st = .ok last) :
    ∃ nOpCount, ctx.checker.checkColdStake ctx.script = true ∧ ctx.evalFrom pc { st with nOpCount } = .ok last := by
  obtain ⟨nOpCount, mid, done, rest⟩ := run_executed (c := .OP_CHECKCOLDSTAKEVERIFY) rfl executed (by decide) h
  obtain ⟨accepted, done⟩ := Checked.after_refuse done
  obtain rfl := Except.ok.inj done
  exact ⟨nOpCount, by simpa using accepted, rest⟩

theorem popVerified_ok (top : st.stack = boolVch b :: s) (h : popVerified e st = .ok mid) :
    b = true ∧ mid = { st with stack := s } := by
  cases b with
  | true => exact ⟨rfl, by simpa [popVerified, top, boolVch, castToBool] using h.symm⟩
  | false => simp [popVerified, top, boolVch, castToBool] at h

theorem run_equalVerify (executed : st.vfExec.all id = true) (h : ctx.evalFrom (0x88 :: pc) st = .ok last) :
    ∃ nOpCount x s, st.stack = x :: x :: s ∧ ctx.evalFrom pc { st with nOpCount, stack := s } = .ok last := by
  obtain ⟨nOpCount, mid, done, rest⟩ := run_executed (c := .OP_EQUALVERIFY) rfl executed (by decide) h
  have done : (EvalState.onStack { st with nOpCount } _ >>=
    popVerified .EQUALVERIFY) = .ok mid := done
  obtain ⟨_, compared, popped⟩ := Checked.bind_ok done
  obtain ⟨stack, found, rfl⟩ := onStack_ok compared
  dsimp only at found
  split at found
  · rename_i x₂ x₁ s shape
    obtain rfl := Option.some.inj found
    obtain ⟨equal, rfl⟩ := popVerified_ok rfl popped
    obtain rfl := eq_of_beq equal
    exact ⟨nOpCount, x₁, s, shape, rest⟩
  · cases found

theorem run_checkSig (executed : st.vfExec.all id = true) (h : ctx.evalFrom (0xac :: pc) st = .ok last) :
    ∃ nOpCount vchPubKey vchSig s, st.stack = vchPubKey :: vchSig :: s ∧
      ctx.evalFrom pc { st with nOpCount, stack := boolVch (ctx.checker.checkSig vchSig vchPubKey
        (CScript.findAndDelete st.pbegincodehash (CScript.pushData vchSig))) :: s } = .ok last := by
  obtain ⟨nOpCount, mid, done, rest⟩ := run_executed (c := .OP_CHECKSIG) rfl executed (by decide) h
  have done : ctx.checkSig { st with nOpCount } = .ok mid := done
  simp only [checkSig] at done
  split at done
  · rename_i vchPubKey vchSig s shape
    obtain ⟨_, _, done⟩ := Checked.bind_ok done
    obtain ⟨_, _, done⟩ := Checked.bind_ok done
    obtain rfl := Except.ok.inj done
    exact ⟨nOpCount, vchPubKey, vchSig, s, shape, rest⟩
  · cases done

end Rules

end EvalContext

end SchillingCoin
