import Mathlib.Data.List.DropRight
import Mathlib.Data.List.GetD

/-!
Sequences that are blank from some position on, stored as lists without trailing blanks.
-/

universe u

namespace Trimmed

variable {α : Type u} {p : α → Bool} {d : α}

def Canonical (p : α → Bool) (d : α) (l : List α) : Prop := ∀ x ∈ l, p x = true → x = d

def IsTrim (p : α → Bool) (l : List α) : Prop := ∀ x ∈ l.getLast?, p x = false

/-- `l` with blanks appended up to length `k`, as `vector::resize` grows a vector. -/
def grow (d : α) (k : Nat) (l : List α) : List α := l ++ List.replicate (k - l.length) d

variable {l : List α} {n : Nat}

theorem getD_canonical (canonical : Canonical p d l) (blank : p (l.getD n d) = true) : l.getD n d = d := by
  by_cases inside : n < l.length
  · rw [List.getD_eq_getElem _ _ inside] at blank ⊢
    exact canonical _ (List.getElem_mem inside) blank
  · exact List.getD_eq_default _ _ (Nat.le_of_not_lt inside)

theorem length_le_of_getD {m : List α} (trim : IsTrim p l) (blank : p d = true)
    (same : ∀ n, l.getD n d = m.getD n d) : l.length ≤ m.length := by
  by_contra longer
  have inside : l.length - 1 < l.length := by omega
  have outside : m.length ≤ l.length - 1 := by omega
  have last : l.getLast? = some (l.getD (l.length - 1) d) := by
    rw [List.getLast?_eq_getElem?, List.getD_eq_getElem _ _ inside, List.getElem?_eq_getElem inside]
  have nonblank := trim _ last
  rw [same, List.getD_eq_default _ _ outside, blank] at nonblank
  exact absurd nonblank (by simp)

theorem ext (blank : p d = true) (left : IsTrim p l) (right : IsTrim p m) (same : ∀ n, l.getD n d = m.getD n d) : l = m := by
  have length : l.length = m.length :=
    Nat.le_antisymm (length_le_of_getD left blank same) (length_le_of_getD right blank fun n => (same n).symm)
  apply List.ext_getElem length
  intro n hl hm
  rw [← List.getD_eq_getElem _ d hl, ← List.getD_eq_getElem _ d hm]
  exact same n

theorem isTrim_rdropWhile (p : α → Bool) (l : List α) : IsTrim p (l.rdropWhile p) := by
  intro x last
  obtain ⟨nonempty, rfl⟩ := List.mem_getLast?_eq_getLast last
  simpa using List.rdropWhile_last_not p l nonempty

theorem canonical_rdropWhile (canonical : Canonical p d l) : Canonical p d (l.rdropWhile p) :=
  fun x mem => canonical x ((List.rdropWhile_prefix p l).subset mem)

theorem rdropWhile_of_isTrim (trim : IsTrim p l) : l.rdropWhile p = l := by
  rw [List.rdropWhile_eq_self_iff]
  intro nonempty
  simp [trim _ (List.getLast?_eq_some_getLast nonempty)]

theorem getElem?_rdropWhile_iff (kept : p x = false) : (l.rdropWhile p)[n]? = some x ↔ l[n]? = some x := by
  induction l using List.reverseRecOn with
  | nil => simp
  | append_singleton l y ih =>
    rw [List.rdropWhile_concat]
    split
    · next blank =>
      rw [ih, List.getElem?_append]
      split
      · rfl
      · next outside =>
        rw [List.getElem?_eq_none (by omega)]
        refine ⟨nofun, fun last => ?_⟩
        obtain rfl := List.mem_singleton.mp (List.mem_of_getElem? last)
        rw [blank] at kept
        cases kept
    · rfl

theorem getD_rdropWhile (canonical : Canonical p d l) (n : Nat) :
    (l.rdropWhile p).getD n d = l.getD n d := by
  induction l using List.reverseRecOn with
  | nil => simp
  | append_singleton l x ih =>
    have init : Canonical p d l := fun y mem => canonical y (List.mem_append_left _ mem)
    rw [List.rdropWhile_concat]
    split
    · rename_i blank
      have same : x = d := canonical x (by simp) blank
      rw [ih init]
      by_cases inside : n < l.length
      · rw [List.getD_append _ _ _ _ inside]
      · rw [List.getD_eq_default _ _ (Nat.le_of_not_lt inside), List.getD_append_right _ _ _ _ (by omega), same]
        cases n - l.length <;> simp
    · rfl

theorem canonical_grow (canonical : Canonical p d l) (k : Nat) : Canonical p d (grow d k l) := by
  intro x mem blank
  rcases List.mem_append.mp mem with mem | mem
  · exact canonical x mem blank
  · exact List.eq_of_mem_replicate mem

@[simp] theorem getD_grow (l : List α) (k n : Nat) : (grow d k l).getD n d = l.getD n d := by
  unfold grow
  by_cases inside : n < l.length
  · rw [List.getD_append _ _ _ _ inside]
  · rw [List.getD_append_right _ _ _ _ (by omega), List.getD_eq_default l _ (by omega)]
    simp only [List.getD_eq_getElem?_getD, List.getElem?_replicate]
    split <;> rfl

theorem length_grow (l : List α) (k : Nat) : (grow d k l).length = max l.length k := by
  simp only [grow, List.length_append, List.length_replicate]
  omega

theorem canonical_set (canonical : Canonical p d l) (n : Nat) (ok : p x = true → x = d) : Canonical p d (l.set n x) := by
  intro y mem blank
  rcases List.mem_or_eq_of_mem_set mem with mem | rfl
  · exact canonical y mem blank
  · exact ok blank

theorem getD_set (inside : n < l.length) (x : α) (k : Nat) :
    (l.set n x).getD k d = if k = n then x else l.getD k d := by
  simp only [List.getD_eq_getElem?_getD, List.getElem?_set]
  by_cases same : k = n
  · subst same
    simp [inside]
  · simp [same, Ne.symm same]

end Trimmed
