import SchillingCoin.Lib.Matching
import SchillingCoin.Script.Execution

/-!
`OP_CHECKMULTISIG` accepts the signatures that can be assigned to the keys in their order. The loop takes for each signature the
first key it verifies under, and that loses no assignment.
-/

namespace SchillingCoin

open Checked

namespace EvalContext

variable (ctx : EvalContext)

def Verifies (scriptCode : CScript) (vchSig vchPubKey : valtype) : Prop := ctx.checker.checkSig vchSig vchPubKey scriptCode = true

/-- The script from the last code separator on, without the signatures. They are deleted in the order in which they leave the stack. -/
def codeWithout (st : EvalState) (sigs : List valtype) : CScript :=
  sigs.reverse.foldl (fun code vchSig => CScript.findAndDelete code (CScript.pushData vchSig)) st.pbegincodehash

def Encoded (sigs keys : List valtype) : Prop :=
  (∀ vchSig ∈ sigs, checkSignatureEncoding ctx.crypto vchSig ctx.flags = .ok ()) ∧
    ∀ vchPubKey ∈ keys, checkPubKeyEncoding vchPubKey ctx.flags = .ok ()

def Assigned (scriptCode : CScript) (sigs keys : List valtype) : Prop :=
  ∃ f : Fin sigs.length → Fin keys.length, StrictMono f ∧ ∀ i, ctx.Verifies scriptCode (sigs.get i) (keys.get (f i))

variable {ctx}

theorem Encoded.reverse (encoded : ctx.Encoded sigs keys) : ctx.Encoded sigs.reverse keys.reverse :=
  ⟨fun vchSig mem => encoded.1 vchSig (List.mem_reverse.mp mem), fun vchPubKey mem => encoded.2 vchPubKey (List.mem_reverse.mp mem)⟩

theorem matchSignatures_eq (encoded : ctx.Encoded sigs keys) :
    ∃ fSuccess, ctx.matchSignatures scriptCode sigs keys = .ok fSuccess ∧
      (fSuccess = true ↔ List.SublistForall₂ (ctx.Verifies scriptCode) sigs keys) := by
  induction keys generalizing sigs with
  | nil =>
    cases sigs with
    | nil => exact ⟨true, rfl, iff_of_true rfl .nil⟩
    | cons vchSig sigs => exact ⟨false, rfl, iff_of_false Bool.false_ne_true (fun matched => by cases matched)⟩
  | cons vchPubKey keys ih =>
    cases sigs with
    | nil => exact ⟨true, rfl, iff_of_true rfl .nil⟩
    | cons vchSig sigs =>
      obtain ⟨sigsEncoded, keysEncoded⟩ := encoded
      obtain ⟨sigEncoded, restEncoded⟩ := List.forall_mem_cons.mp sigsEncoded
      obtain ⟨keyEncoded, keysEncoded⟩ := List.forall_mem_cons.mp keysEncoded
      unfold matchSignatures
      rw [sigEncoded, ok_bind, keyEncoded, ok_bind]
      -- The signatures that are left are matched to the other keys exactly when all are matched to all the keys.
      have exchange : List.SublistForall₂ (ctx.Verifies scriptCode) (vchSig :: sigs) (vchPubKey :: keys) ↔
          List.SublistForall₂ (ctx.Verifies scriptCode)
            (if ctx.checker.checkSig vchSig vchPubKey scriptCode then sigs else vchSig :: sigs) keys := by
        by_cases verified : ctx.checker.checkSig vchSig vchPubKey scriptCode = true
        · rw [if_pos verified]
          exact Matching.cons_iff_of_related verified
        · rw [if_neg verified]
          exact Matching.cons_iff_of_unrelated verified
      have leftEncoded : ctx.Encoded (if ctx.checker.checkSig vchSig vchPubKey scriptCode then sigs else vchSig :: sigs) keys := by
        split
        · exact ⟨restEncoded, keysEncoded⟩
        · exact ⟨sigsEncoded, keysEncoded⟩
      rw [exchange]
      generalize (if ctx.checker.checkSig vchSig vchPubKey scriptCode then sigs else vchSig :: sigs) = left at leftEncoded ⊢
      dsimp only
      by_cases more : left.length > keys.length
      · rw [if_pos more]
        refine ⟨false, rfl, iff_of_false Bool.false_ne_true fun matched => ?_⟩
        have fits := Matching.length_le matched
        omega
      · rw [if_neg more]
        exact ih leftEncoded

theorem getint_small {n : Nat} (small : n ≤ 20) : CScriptNum.getint n = n := by
  unfold CScriptNum.getint
  omega

theorem checkMultiSig_eq (stack : st.stack = vchKeys :: (keys ++ vchSigs :: (sigs ++ dummy :: below)))
    (keysCount : ctx.scriptNum vchKeys CScriptNum.nDefaultMaxNumSize = .ok keys.length)
    (sigsCount : ctx.scriptNum vchSigs CScriptNum.nDefaultMaxNumSize = .ok sigs.length) (fewer : sigs.length ≤ keys.length)
    (few : keys.length ≤ 20) (opCount : st.nOpCount + keys.length ≤ 201) {fSuccess : Bool} (matched : ctx.matchSignatures
      (sigs.foldl (fun code vchSig => CScript.findAndDelete code (CScript.pushData vchSig)) st.pbegincodehash) sigs keys = .ok fSuccess) :
    ctx.checkMultiSig st =
      if hasFlag ctx.flags SCRIPT_VERIFY_NULLDUMMY && !dummy.isEmpty then .error .SIG_NULLDUMMY
      else .ok { st with nOpCount := st.nOpCount + keys.length, stack := boolVch fSuccess :: below } := by
  have size : st.stack.length = keys.length + sigs.length + below.length + 3 := by
    rw [stack]
    simp only [List.length_cons, List.length_append]
    omega
  have number : st.stack.getD (keys.length + 1) [] = vchSigs := by
    rw [stack]
    simp
  have isKeys : (st.stack.drop 1).take keys.length = keys := by
    rw [stack]
    simp
  have belowKeys : st.stack.drop (keys.length + 2) = sigs ++ dummy :: below := by
    rw [stack, List.drop_succ_cons, Nat.add_comm keys.length 1, ← List.drop_drop]
    simp
  have isSigs : (st.stack.drop (keys.length + 2)).take sigs.length = sigs := by
    rw [belowKeys, List.take_left]
  have left : st.stack.drop (keys.length + sigs.length + 2) = dummy :: below := by
    rw [show keys.length + sigs.length + 2 = keys.length + 2 + sigs.length by omega, ← List.drop_drop, belowKeys, List.drop_left]
  have fewSigs : sigs.length ≤ 20 := Nat.le_trans fewer few
  unfold checkMultiSig
  split
  · next empty =>
    rw [empty] at stack
    cases stack
  · next x s shape =>
    rw [shape] at stack
    obtain ⟨rfl, rfl⟩ := List.cons.inj stack
    rw [keysCount, ok_bind, getint_small few]
    simp only [Int.toNat_natCast]
    rw [number, sigsCount]
    simp only [ok_bind, getint_small fewSigs, Int.toNat_natCast]
    rw [isKeys, isSigs, matched, left]
    have nKeys : ¬((keys.length : Int) < 0 ∨ (keys.length : Int) > 20) := by omega
    have nSigs : ¬((sigs.length : Int) < 0 ∨ (sigs.length : Int) > keys.length) := by omega
    have ops : ¬st.nOpCount + keys.length > 201 := by omega
    have keysThere : ¬st.stack.length < keys.length + 2 := by omega
    have sigsThere : ¬st.stack.length < keys.length + sigs.length + 3 := by omega
    simp only [nKeys, nSigs, ops, keysThere, sigsThere, decide_false, refuse_false, ok_bind]
    unfold refuse
    split <;> rfl

theorem checkMultiSig_assigns (stack : st.stack = vchKeys :: (keys.reverse ++ vchSigs :: (sigs.reverse ++ dummy :: below)))
    (keysCount : ctx.scriptNum vchKeys CScriptNum.nDefaultMaxNumSize = .ok keys.length)
    (sigsCount : ctx.scriptNum vchSigs CScriptNum.nDefaultMaxNumSize = .ok sigs.length) (fewer : sigs.length ≤ keys.length)
    (few : keys.length ≤ 20) (opCount : st.nOpCount + keys.length ≤ 201) (encoded : ctx.Encoded sigs keys)
    (nullDummy : hasFlag ctx.flags SCRIPT_VERIFY_NULLDUMMY = true → dummy = []) :
    ∃ fSuccess, ctx.checkMultiSig st = .ok { st with nOpCount := st.nOpCount + keys.length, stack := boolVch fSuccess :: below } ∧
      (fSuccess = true ↔ ctx.Assigned (codeWithout st sigs) sigs keys) := by
  obtain ⟨fSuccess, matched, iff⟩ : ∃ fSuccess, ctx.matchSignatures (codeWithout st sigs) sigs.reverse keys.reverse = .ok fSuccess ∧
      (fSuccess = true ↔ List.SublistForall₂ (ctx.Verifies (codeWithout st sigs)) sigs.reverse keys.reverse) :=
    matchSignatures_eq encoded.reverse
  refine ⟨fSuccess, ?_, ?_⟩
  · have ran := checkMultiSig_eq stack (by simpa using keysCount) (by simpa using sigsCount) (by simpa using fewer) (by simpa using few)
      (by simpa using opCount) matched
    rw [ran, List.length_reverse]
    apply if_neg
    rw [Bool.and_eq_true, not_and]
    intro flag
    rw [nullDummy flag]
    simp
  · rw [iff, Matching.reverse_iff, Matching.iff_exists_strictMono]
    rfl

/-- With an empty dummy element where the flags ask for one, `OP_CHECKMULTISIG` pushes a result, and it is true exactly when the
signatures can be assigned to the keys. -/
theorem checkMultiSig_accepts_assignments (ctx : EvalContext) (fExec : Bool) (rest : CScript) (st : EvalState)
    {sigs keys : List valtype} {vchKeys vchSigs dummy : valtype} {below : List valtype}
    (stack : st.stack = vchKeys :: (keys.reverse ++ vchSigs :: (sigs.reverse ++ dummy :: below)))
    (keysCount : ctx.scriptNum vchKeys CScriptNum.nDefaultMaxNumSize = .ok keys.length)
    (sigsCount : ctx.scriptNum vchSigs CScriptNum.nDefaultMaxNumSize = .ok sigs.length)
    (fewer : sigs.length ≤ keys.length) (few : keys.length ≤ 20) (opCount : st.nOpCount + keys.length ≤ 201)
    (encoded : ctx.Encoded sigs keys) (nullDummy : hasFlag ctx.flags SCRIPT_VERIFY_NULLDUMMY = true → dummy = []) :
    ∃ fSuccess, ctx.execute .OP_CHECKMULTISIG fExec rest st =
        .ok { st with nOpCount := st.nOpCount + keys.length, stack := boolVch fSuccess :: below } ∧
      (fSuccess = true ↔ ctx.Assigned (codeWithout st sigs) sigs keys) := by
  have executed : ctx.execute .OP_CHECKMULTISIG fExec rest st = ctx.checkMultiSig st := rfl
  rw [executed]
  exact checkMultiSig_assigns stack keysCount sigsCount fewer few opCount encoded nullDummy

def byteContext (flags : UInt32) : EvalContext where
  crypto := ⟨id, id, id, fun _ => true, fun _ _ _ _ => 0, fun _ _ _ => false⟩
  checker := ⟨fun vchSig vchPubKey _ => vchSig == vchPubKey, fun _ => false, fun _ => false⟩
  flags
  script := [0xae]

theorem two_of_three_accepted : ∃ fSuccess, (byteContext 0).execute .OP_CHECKMULTISIG true []
      { stack := [[3], [7], [8], [9], [2], [7], [9], []], pbegincodehash := [0xae] } =
        .ok { stack := [boolVch fSuccess], nOpCount := 3, pbegincodehash := [0xae] } ∧
    (fSuccess = true ↔ (byteContext 0).Assigned [0xae] [[9], [7]] [[9], [8], [7]]) :=
  @checkMultiSig_accepts_assignments (byteContext 0) true []
    { stack := [[3], [7], [8], [9], [2], [7], [9], []], pbegincodehash := [0xae] } [[9], [7]] [[9], [8], [7]] [3] [2] [] [] rfl
    (by decide) (by decide) (by decide) (by decide) (by decide) ⟨by decide, by decide⟩ (by decide)

/-- Under the flag for it, an operation without signatures, which nothing is asked of, fails on a dummy element that is not empty. -/
theorem checkMultiSig_refuses_dummy :
    (byteContext SCRIPT_VERIFY_NULLDUMMY).Assigned [0xae] [] [] ∧ (byteContext SCRIPT_VERIFY_NULLDUMMY).Encoded [] [] ∧
      (byteContext SCRIPT_VERIFY_NULLDUMMY).scriptNum [] CScriptNum.nDefaultMaxNumSize = .ok 0 ∧
      (byteContext SCRIPT_VERIFY_NULLDUMMY).execute .OP_CHECKMULTISIG true [] { stack := [[], [], [1]], pbegincodehash := [0xae] } =
        .error .SIG_NULLDUMMY := by
  refine ⟨⟨fun i => i, fun i => i.elim0, fun i => i.elim0⟩, ⟨by decide, by decide⟩, by decide, by decide⟩

end EvalContext

end SchillingCoin
