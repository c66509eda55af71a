import SchillingCoin.Script.ColdStaking
import SchillingCoin.Script.StandardForms

/-!
The two recognisers of cold staking scripts: `IsPayToColdStaking`, which looks at seven bytes and is what consensus rules use, and
`Solver`, which parses operations and is what the wallet and the signer use.
-/

namespace SchillingCoin

namespace CScript

open Operation (plain)

/-- The recognisers give one answer, which is whether the script is a delegation, to the keys that `Solver` returns. -/
def RecognisersAgree (s : CScript) : Prop :=
  (isPayToColdStaking s = true ↔ ∃ vSolutions, solver s = some (.TX_COLDSTAKE, vSolutions)) ∧
    (isPayToColdStaking s = true ↔ ∃ a b, s = getScriptForStakeDelegation a b) ∧
      ∀ vSolutions, solver s = some (.TX_COLDSTAKE, vSolutions) →
        ∃ a b, vSolutions = [a.bytes, b.bytes] ∧ s = getScriptForStakeDelegation a b

/-- The bytes that `IsPayToColdStaking` does not look at, the operations before and between the hashes. -/
def DelegationBytes (s : CScript) : Prop :=
  s[0]? = some 0x76 ∧ s[1]? = some 0xa9 ∧ s[3]? = some 0x63 ∧ s[26]? = some 0x67 ∧ s[48]? = some 0x68

/-- A hash is pushed with one of the longer operations, which give the size of their data in bytes of its own. -/
def LongPush (s : CScript) : Prop :=
  ∃ stakingKey spendingKey : Operation, stakingKey.data.length = 20 ∧ spendingKey.data.length = 20 ∧
    (stakingKey.opcode ≠ 0x14 ∨ spendingKey.opcode ≠ 0x14) ∧ s = assemble (coldStakeOps stakingKey spendingKey)

def pushKey (key : CKeyID) : Operation where
  opcode := 0x14
  data := key.bytes
  holds := by
    rw [CanHold, if_pos (by decide), key.size]
    rfl

theorem pushKey_bytes (key : CKeyID) : (pushKey key).bytes = 0x14 :: key.bytes :=
  by
  have short : (pushKey key).opcode < OP_PUSHDATA1 := show (0x14 : UInt8) < OP_PUSHDATA1 by decide
  exact Operation.bytes_of_short short

theorem delegation_ops (a b : CKeyID) : getScriptForStakeDelegation a b = assemble (coldStakeOps (pushKey a) (pushKey b)) := by
  simp [stakeDelegation_bytes, coldStakeOps, pushKey_bytes]

theorem delegation_recognised (a b : CKeyID) :
    isPayToColdStaking (getScriptForStakeDelegation a b) = true ∧ DelegationBytes (getScriptForStakeDelegation a b) := by
  have bytes := stakeDelegation_bytes a b
  constructor
  · rw [bytes]
    simp [isPayToColdStaking, a.size, b.size]
  · rw [bytes]
    simp [DelegationBytes, a.size, b.size]

theorem delegation_of_bytes (recognised : isPayToColdStaking s = true) (others : DelegationBytes s) :
    ∃ a b, s = getScriptForStakeDelegation a b := by
  simp only [isPayToColdStaking, Bool.and_eq_true, beq_iff_eq] at recognised
  obtain ⟨⟨⟨⟨⟨⟨length, at2⟩, at4⟩, at5⟩, at27⟩, at49⟩, at50⟩ := recognised
  obtain ⟨at0, at1, at3, at26, at48⟩ := others
  have first : s.take 6 = [0x76, 0xa9, 0x7b, 0x63, 0xd1, 0x14] := by
    simp only [List.take_add_one, List.take_zero, at0, at1, at2, at3, at4, at5]
    rfl
  have middle : (s.drop 26).take 2 = [0x67, 0x14] := by
    simp only [List.take_add_one, List.take_zero, List.getElem?_drop, Nat.add_zero, Nat.reduceAdd, at26, at27]
    rfl
  have last : s.drop 48 = [0x68, 0x88, 0xac] := by
    rw [← List.take_of_length_le (show (s.drop 48).length ≤ 3 by rw [List.length_drop]; omega)]
    simp only [List.take_add_one, List.take_zero, List.getElem?_drop, Nat.add_zero, Nat.reduceAdd, at48, at49, at50]
    rfl
  have cut : s = s.take 6 ++ ((s.drop 6).take 20 ++ ((s.drop 26).take 2 ++ ((s.drop 28).take 20 ++ s.drop 48))) := by
    have at28 : (s.drop 28).take 20 ++ s.drop 48 = s.drop 28 := by
      rw [← List.drop_drop (i := 20) (j := 28), List.take_append_drop]
    have at26 : (s.drop 26).take 2 ++ s.drop 28 = s.drop 26 := by
      rw [← List.drop_drop (i := 2) (j := 26), List.take_append_drop]
    have at6 : (s.drop 6).take 20 ++ s.drop 26 = s.drop 6 := by
      rw [← List.drop_drop (i := 20) (j := 6), List.take_append_drop]
    rw [at28, at26, at6, List.take_append_drop]
  refine ⟨⟨(s.drop 6).take 20, by simp [length]⟩, ⟨(s.drop 28).take 20, by simp [length]⟩, ?_⟩
  rw [stakeDelegation_bytes]
  dsimp only
  rw [first, middle, last] at cut
  exact cut

theorem solver_coldStake_form (h : solver s = some (.TX_COLDSTAKE, vSolutions)) : HasForm s vSolutions .TX_COLDSTAKE := by
  refine solver_form ?_ h
  rintro rfl
  cases h

/-- The recognisers agree on a script unless the other bytes are not those of a delegation, or a hash is pushed the long way. -/
theorem recognisers_agree_iff (s : CScript) :
    RecognisersAgree s ↔ (isPayToColdStaking s = true → DelegationBytes s) ∧ ¬LongPush s := by
  constructor
  · rintro ⟨_, delegated, solved⟩
    constructor
    · intro recognised
      obtain ⟨a, b, rfl⟩ := delegated.mp recognised
      exact (delegation_recognised a b).2
    · rintro ⟨stakingKey, spendingKey, staking, spending, long, rfl⟩
      obtain ⟨a, b, _, same⟩ := solved _ (solver_coldStakeOps staking spending)
      rw [delegation_ops] at same
      have ops := assemble_injective same
      simp only [coldStakeOps, List.cons.injEq, and_true, true_and] at ops
      obtain ⟨rfl, rfl⟩ := ops
      exact long.elim (fun other => other rfl) (fun other => other rfl)
  · rintro ⟨others, short⟩
    have delegated : ∀ vSolutions, solver s = some (.TX_COLDSTAKE, vSolutions) →
        ∃ a b, vSolutions = [a.bytes, b.bytes] ∧ s = getScriptForStakeDelegation a b := by
      intro vSolutions h
      obtain ⟨stakingKey, spendingKey, staking, spending, rfl, rfl⟩ := solver_coldStake_form h
      have direct : stakingKey.opcode = 0x14 ∧ spendingKey.opcode = 0x14 := by
        by_contra long
        refine short ⟨stakingKey, spendingKey, staking, spending, ?_, rfl⟩
        by_contra both
        rw [not_or, not_not, not_not] at both
        exact long both
      have isPush : stakingKey = pushKey ⟨stakingKey.data, staking⟩ := Operation.ext direct.1 rfl
      have isPush' : spendingKey = pushKey ⟨spendingKey.data, spending⟩ := Operation.ext direct.2 rfl
      refine ⟨⟨stakingKey.data, staking⟩, ⟨spendingKey.data, spending⟩, rfl, ?_⟩
      rw [delegation_ops, ← isPush, ← isPush']
    refine ⟨⟨?_, ?_⟩, ⟨?_, ?_⟩, delegated⟩
    · intro recognised
      obtain ⟨a, b, rfl⟩ := delegation_of_bytes recognised (others recognised)
      exact ⟨_, solver_stakeDelegation a b⟩
    · rintro ⟨vSolutions, h⟩
      obtain ⟨a, b, _, rfl⟩ := delegated vSolutions h
      exact (delegation_recognised a b).1
    · intro recognised
      exact delegation_of_bytes recognised (others recognised)
    · rintro ⟨a, b, rfl⟩
      exact (delegation_recognised a b).1

def sevenBytes : CScript :=
  [0, 0, 0x7b, 0, 0xd1, 0x14] ++ List.replicate 20 0 ++ [0, 0x14] ++ List.replicate 20 0 ++ [0, 0x88, 0xac]

/-- A delegation to two zero hashes of which the first is pushed with `OP_PUSHDATA1`. -/
def longDelegation : CScript :=
  [0x76, 0xa9, 0x7b, 0x63, 0xd1, 0x4c, 0x14] ++ List.replicate 20 0 ++ [0x67, 0x14] ++ List.replicate 20 0 ++ [0x68, 0x88, 0xac]

/-- Each recogniser takes a script that the other one does not. -/
theorem recognisers_disagree :
    (isPayToColdStaking sevenBytes = true ∧ solver sevenBytes = none) ∧
      isPayToColdStaking longDelegation = false ∧
      solver longDelegation = some (.TX_COLDSTAKE, [List.replicate 20 0, List.replicate 20 0]) := by
  decide

end CScript

end SchillingCoin
