import Mathlib.Order.Basic
import Mathlib.Data.List.Basic

/-!
Loops that keep the best candidate seen so far.
-/

universe u v w

namespace Best

variable {α : Type u} {β : Type v} {γ : Type w} [Preorder γ]

def Keeps (eligible : α → Prop) (score : α → γ) (make : α → β) (value : β → γ) (step : β → α → β) : Prop :=
  ∀ best x, (eligible x ∧ value best ≤ score x ∧ step best x = make x) ∨
    ((eligible x → score x ≤ value best) ∧ step best x = best)

variable {eligible : α → Prop} {score : α → γ} {make : α → β} {value : β → γ} {step : β → α → β}

theorem Keeps.start_le (keeps : Keeps eligible score make value step) (made : ∀ x, value (make x) = score x)
    (l : List α) (best : β) : value best ≤ value (l.foldl step best) := by
  induction l generalizing best with
  | nil => exact le_rfl
  | cons x l ih =>
    rw [List.foldl_cons]
    rcases keeps best x with ⟨_, better, same⟩ | ⟨_, same⟩
    · calc value best ≤ score x := better
        _ = value (step best x) := by rw [same, made]
        _ ≤ value (l.foldl step (step best x)) := ih _
    · rw [same]
      exact ih best

theorem Keeps.le (keeps : Keeps eligible score make value step) (made : ∀ x, value (make x) = score x) {l : List α} (best : β)
    (member : x ∈ l) (good : eligible x) : score x ≤ value (l.foldl step best) := by
  induction l generalizing best with
  | nil => cases member
  | cons y l ih =>
    rw [List.foldl_cons]
    rcases List.mem_cons.mp member with rfl | later
    · have here : score x ≤ value (step best x) := by
        rcases keeps best x with ⟨_, _, same⟩ | ⟨passed, same⟩
        · rw [same, made]
        · rw [same]
          exact passed good
      exact here.trans (keeps.start_le made l _)
    · exact ih _ later

theorem Keeps.source (keeps : Keeps eligible score make value step) (l : List α) (best : β) :
    l.foldl step best = best ∨ ∃ x ∈ l, eligible x ∧ l.foldl step best = make x := by
  induction l generalizing best with
  | nil => exact Or.inl rfl
  | cons y l ih =>
    rw [List.foldl_cons]
    rcases ih (step best y) with same | ⟨x, member, good, same⟩
    · rcases keeps best y with ⟨good, _, made⟩ | ⟨_, kept⟩
      · exact Or.inr ⟨y, List.mem_cons_self, good, same.trans made⟩
      · exact Or.inl (same.trans kept)
    · exact Or.inr ⟨x, List.mem_cons_of_mem y member, good, same⟩

/-- Where only a better candidate replaces the best one, it is better than what the loop started with. -/
theorem Keeps.source_lt (keeps : Keeps eligible score make value step) (made : ∀ x, value (make x) = score x)
    (strict : ∀ best x, step best x = best ∨ value best < score x) (l : List α) (best : β) :
    l.foldl step best = best ∨ ∃ x ∈ l, eligible x ∧ value best < score x ∧ l.foldl step best = make x := by
  induction l generalizing best with
  | nil => exact Or.inl rfl
  | cons y l ih =>
    rw [List.foldl_cons]
    rcases strict best y with kept | better
    · rw [kept]
      rcases ih best with same | ⟨x, member, good, more, same⟩
      · exact Or.inl same
      · exact Or.inr ⟨x, List.mem_cons_of_mem y member, good, more, same⟩
    · rcases keeps best y with ⟨good, _, here⟩ | ⟨_, kept⟩
      · rw [here]
        rcases ih (make y) with same | ⟨x, member, good', more, same⟩
        · exact Or.inr ⟨y, List.mem_cons_self, good, better, same⟩
        · rw [made] at more
          exact Or.inr ⟨x, List.mem_cons_of_mem y member, good', better.trans more, same⟩
      · rw [kept]
        rcases ih best with same | ⟨x, member, good, more, same⟩
        · exact Or.inl same
        · exact Or.inr ⟨x, List.mem_cons_of_mem y member, good, more, same⟩

theorem Keeps.value_le (keeps : Keeps eligible score make value step) (made : ∀ x, value (make x) = score x)
    {l l' : List α} (among : ∀ x ∈ l, x ∈ l') (best : β) : value (l.foldl step best) ≤ value (l'.foldl step best) := by
  rcases keeps.source l best with same | ⟨x, member, good, same⟩
  · rw [same]
    exact keeps.start_le made l' best
  · rw [same, made]
    exact keeps.le made best (among x member) good

end Best
