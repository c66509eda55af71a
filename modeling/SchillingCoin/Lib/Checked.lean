import Mathlib.Data.List.Basic

/-!
Computations made of checks that may refuse, in `Except` or as a flag: the refusal of a condition, a check of
every element of a list, and what the success of each says.
-/

namespace Checked

variable {ε α β : Type}

variable {x : Except ε α} {f : α → Except ε β} {bad : Bool} {e e' : ε} {check : α → Except ε Unit}
  {l : List α}

theorem bind_ok (h : (x >>= f) = .ok b) : ∃ a, x = .ok a ∧ f a = .ok b := by
  cases x with
  | error e => cases h
  | ok a => exact ⟨a, rfl, h⟩

theorem bind_congr (same : ∀ a, x = .ok a → f a = g a) : (x >>= f) = (x >>= g) := by
  cases x with
  | error e => rfl
  | ok a => exact same a rfl

def refuse (bad : Bool) (e : ε) : Except ε Unit := if bad then .error e else .ok ()

@[simp] theorem refuse_false (e : ε) : refuse false e = .ok () := rfl

@[simp] theorem ok_bind (a : α) (f : α → Except ε β) : (Except.ok a >>= f) = f a := rfl

theorem refuse_ok : refuse bad e = .ok u ↔ bad = false := by
  cases bad <;> simp [refuse]

theorem after_refuse (h : (refuse bad e >>= fun _ => x) = .ok b) : bad = false ∧ x = .ok b := by
  obtain ⟨u, passed, h⟩ := bind_ok h
  exact ⟨refuse_ok.mp passed, h⟩

theorem bind_error (h : (x >>= f) = .error e) : x = .error e ∨ ∃ a, x = .ok a ∧ f a = .error e := by
  cases x with
  | error e' => exact Or.inl (by cases h; rfl)
  | ok a => exact Or.inr ⟨a, rfl, h⟩

theorem bind_ne_error (first : x ≠ .error e) (rest : ∀ a, x = .ok a → f a ≠ .error e) :
    (x >>= f) ≠ .error e := by
  intro failed
  rcases bind_error failed with here | ⟨a, passed, later⟩
  · exact first here
  · exact rest a passed later

theorem refuse_error (h : refuse bad e = .error e') : bad = true ∧ e = e' := by
  cases bad with
  | true => exact ⟨rfl, by cases h; rfl⟩
  | false => cases h

theorem refuse_ne_error (other : e ≠ e') :
    refuse bad e ≠ .error e' := fun failed => other (refuse_error failed).2

theorem past_refuse (other : e ≠ e') (h : (refuse bad e >>= fun _ => x) = .error e') : x = .error e' := by
  rcases bind_error h with here | ⟨_, _, later⟩
  · exact absurd (refuse_error here).2 other
  · exact later

theorem ok_of_toOption (h : x.toOption = some a) : x = .ok a := by
  cases x with
  | error e => cases h
  | ok b => exact congrArg Except.ok (Option.some.inj h)

def all (check : α → Except ε Unit) : List α → Except ε Unit
  | [] => .ok ()
  | x :: xs => do
    check x
    all check xs

theorem all_ok (h : all check l = .ok ()) : ∀ x ∈ l, check x = .ok () := by
  induction l with
  | nil => simp
  | cons x xs ih =>
    obtain ⟨_, here, rest⟩ := bind_ok h
    intro y mem
    rcases List.mem_cons.mp mem with rfl | mem
    · exact here
    · exact ih rest y mem

theorem all_error (h : all check l = .error e) : ∃ x ∈ l, check x = .error e := by
  induction l with
  | nil => cases h
  | cons x xs ih =>
    rcases bind_error h with here | ⟨_, _, later⟩
    · exact ⟨x, List.mem_cons_self, here⟩
    · obtain ⟨y, mem, failed⟩ := ih later
      exact ⟨y, List.mem_cons_of_mem _ mem, failed⟩

theorem all_eq_ok (h : ∀ x ∈ l, check x = .ok ()) : all check l = .ok () := by
  induction l with
  | nil => rfl
  | cons x xs ih =>
    rw [all, h x (by simp), ok_bind]
    exact ih fun y mem => h y (by simp [mem])

theorem not_stopped [Decidable c] (valid : (if c then (false, a) else rest).1 = true) : ¬c := by
  intro stops
  rw [if_pos stops] at valid
  cases valid

end Checked
