import Mathlib.Data.Nat.Basic

/-!
Loops that go around until a round answers. A loop whose rounds make a measure smaller ends, with an answer that its
invariant allows.
-/

universe u v

namespace Rounds

variable {S : Type u} {R : Type v}

/-- The loop with a bound on its rounds; `none` when there is more to do. -/
def loop (round : S → S ⊕ R) : Nat → S → Option R
  | 0, _ => none
  | rounds + 1, s =>
    match round s with
    | .inl s => loop round rounds s
    | .inr r => some r

def Ends (round : S → S ⊕ R) (s : S) (r : R) : Prop := ∃ enough, ∀ rounds, enough ≤ rounds → loop round rounds s = some r

variable {round : S → S ⊕ R}

theorem Ends.here (answer : round s = .inr r) : Ends round s r := by
  refine ⟨1, fun rounds enough => ?_⟩
  obtain ⟨rounds, rfl⟩ : ∃ k, rounds = k + 1 := ⟨rounds - 1, by omega⟩
  simp [loop, answer]

theorem Ends.later (again : round s = .inl s') (ends : Ends round s' r) : Ends round s r := by
  obtain ⟨enough, found⟩ := ends
  refine ⟨enough + 1, fun rounds more => ?_⟩
  obtain ⟨rounds, rfl⟩ : ∃ k, rounds = k + 1 := ⟨rounds - 1, by omega⟩
  simpa [loop, again] using found rounds (by omega)

theorem ends_of_measure (Inv : S → Prop) (Answer : R → Prop) (measure : S → Nat)
    (again : ∀ s s', Inv s → round s = .inl s' → Inv s' ∧ measure s' < measure s)
    (answered : ∀ s r, Inv s → round s = .inr r → Answer r) (inv : Inv s) : ∃ r, Ends round s r ∧ Answer r := by
  induction bound : measure s using Nat.strong_induction_on generalizing s with
  | _ n ih =>
    cases now : round s with
    | inr r => exact ⟨r, Ends.here now, answered s r inv now⟩
    | inl s' =>
      obtain ⟨inv', less⟩ := again s s' inv now
      obtain ⟨r, ends, answer⟩ := ih (measure s') (bound ▸ less) inv' rfl
      exact ⟨r, Ends.later now ends, answer⟩

end Rounds
