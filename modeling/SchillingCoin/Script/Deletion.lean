import SchillingCoin.Script.Operations

/-!
`FindAndDelete` of the bytes of one operation, which deletes the operations that are the same, and nothing else.
-/

namespace SchillingCoin

namespace CScript

theorem length_le_assemble (ops : List Operation) : ops.length ≤ (assemble ops).length := by
  induction ops with
  | nil => exact Nat.le_refl _
  | cons op ops ih =>
    rw [assemble_cons, List.length_append, List.length_cons, Operation.bytes, List.length_cons]
    omega

theorem isPrefixOf_assemble (op first : Operation) (ops : List Operation) :
    op.bytes.isPrefixOf (assemble (first :: ops)) = true ↔ first = op := by
  rw [List.isPrefixOf_iff_prefix, assemble_cons]
  constructor
  · rintro ⟨rest, same⟩
    exact (bytes_append_inj same).1.symm
  · rintro rfl
    exact List.prefix_append _ _

theorem dropCopies_operation (op : Operation) (enough : ops.length ≤ n) :
    ∃ rest, dropCopies op.bytes n (assemble ops) = assemble rest ∧
      rest.filter (fun other => other ≠ op) = ops.filter (fun other => other ≠ op) ∧ rest.length ≤ ops.length ∧
      ∀ first ∈ rest.head?, first ≠ op := by
  induction n generalizing ops with
  | zero =>
    obtain rfl : ops = [] := List.length_eq_zero_iff.mp (by omega)
    exact ⟨[], rfl, rfl, Nat.le_refl _, by simp⟩
  | succ n ih =>
    cases ops with
    | nil =>
      refine ⟨[], ?_, rfl, Nat.le_refl _, by simp⟩
      rw [dropCopies, if_neg (by simp [Operation.bytes])]
    | cons first ops =>
      rw [List.length_cons] at enough
      rw [dropCopies]
      by_cases same : first = op
      · obtain ⟨rest, dropped, kept, shorter, head⟩ := ih (show ops.length ≤ n by omega)
        refine ⟨rest, ?_, ?_, by rw [List.length_cons]; omega, head⟩
        · rw [if_pos ((isPrefixOf_assemble op first ops).mpr same), same, assemble_cons, List.drop_left]
          exact dropped
        · rw [kept, List.filter_cons_of_neg (by simpa using same)]
      · refine ⟨first :: ops, ?_, rfl, Nat.le_refl _, by simpa using same⟩
        rw [if_neg (fun isPrefix => same ((isPrefixOf_assemble op first ops).mp isPrefix))]

theorem findAndDeleteFrom_operation (op : Operation) (enough : ops.length < n) :
    findAndDeleteFrom op.bytes n (assemble ops) = assemble (ops.filter fun other => other ≠ op) := by
  induction n generalizing ops with
  | zero => omega
  | succ n ih =>
    obtain ⟨rest, dropped, kept, shorter, head⟩ := dropCopies_operation op (length_le_assemble ops)
    rw [findAndDeleteFrom, dropped, ← kept]
    cases rest with
    | nil => rfl
    | cons first rest =>
      have other : first ≠ op := head first rfl
      rw [List.length_cons] at shorter
      rw [getOp_assemble]
      dsimp only
      have size : (assemble (first :: rest)).length - (assemble rest).length = first.bytes.length := by
        rw [assemble_cons, List.length_append, Nat.add_sub_cancel]
      rw [ih (by omega), size, List.filter_cons_of_pos (by simpa using other), assemble_cons, assemble_cons, List.take_left]

theorem findAndDelete_operation (op : Operation) (ops : List Operation) :
    findAndDelete (assemble ops) op.bytes = assemble (ops.filter fun other => other ≠ op) := by
  rw [findAndDelete, if_neg (by simp [Operation.bytes])]
  exact findAndDeleteFrom_operation op (Nat.lt_succ_of_le (length_le_assemble ops))

end CScript

end SchillingCoin
