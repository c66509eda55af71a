import Mathlib.Order.Lattice
import Mathlib.Data.List.Perm.Basic
import Mathlib.Data.List.TakeWhile

/-!
Ordered collections that may hold several values under a key, as `std::multimap` holds them: the entries in the order of their keys, a new
one behind those of the same key.
-/

universe u v

abbrev StdMultimap (V : Type u) (K : Type v) := List (V × K)

namespace StdMultimap

variable {V : Type u} {K : Type v} [LinearOrder V] {l : StdMultimap V K}

def insert (v : V) (k : K) (l : StdMultimap V K) : StdMultimap V K :=
  l.takeWhile (fun e => decide (e.1 ≤ v)) ++ (v, k) :: l.dropWhile (fun e => decide (e.1 ≤ v))

/-- From the lower to the upper bound of a key. -/
def equalRange (v : V) (l : StdMultimap V K) : StdMultimap V K :=
  (l.dropWhile fun e => decide (e.1 < v)).takeWhile fun e => decide (e.1 ≤ v)

def Ordered (l : StdMultimap V K) : Prop := l.Pairwise fun e e' => e.1 ≤ e'.1

theorem le_of_mem_takeWhile (member : e ∈ l.takeWhile fun e => decide (e.1 ≤ v)) : e.1 ≤ v := by
  have passes := List.mem_takeWhile_imp member
  exact of_decide_eq_true passes

theorem lt_of_mem_takeWhile (member : e ∈ l.takeWhile fun e => decide (e.1 < v)) : e.1 < v := by
  have passes := List.mem_takeWhile_imp member
  exact of_decide_eq_true passes

theorem insert_perm (v : V) (k : K) (l : StdMultimap V K) : (insert v k l).Perm ((v, k) :: l) := by
  have split := List.takeWhile_append_dropWhile (p := fun e : V × K => decide (e.1 ≤ v)) (l := l)
  unfold insert
  conv_rhs => rw [← split]
  exact List.perm_middle

section

variable (ordered : Ordered l)

include ordered

/-- Behind the entries that a test of their keys passes over, none passes it, for a test that smaller keys pass with larger ones. -/
theorem Ordered.dropWhile {p : V → Bool} (down : ∀ a b, a ≤ b → p b = true → p a = true) :
    ∀ e ∈ l.dropWhile (fun e => p e.1), p e.1 = false := by
  induction l with
  | nil => exact nofun
  | cons first rest ih =>
    obtain ⟨below, ordered⟩ := List.pairwise_cons.mp ordered
    rw [List.dropWhile_cons]
    split
    · exact ih ordered
    · next stops =>
      intro e member
      rw [← Bool.not_eq_true]
      intro passes
      rcases List.mem_cons.mp member with isFirst | later
      · exact stops (isFirst ▸ passes)
      · exact stops (down _ _ (below e later) passes)

theorem Ordered.dropWhile_lt (v : V) : ∀ e ∈ l.dropWhile (fun e => decide (e.1 < v)), v ≤ e.1 := by
  intro e member
  have stops := ordered.dropWhile (p := fun w => decide (w < v)) (fun a b le less => decide_eq_true (le.trans_lt (of_decide_eq_true less))) e member
  exact not_lt.mp (of_decide_eq_false stops)

theorem Ordered.dropWhile_le (v : V) : ∀ e ∈ l.dropWhile (fun e => decide (e.1 ≤ v)), v < e.1 := by
  intro e member
  have stops := ordered.dropWhile (p := fun w => decide (w ≤ v)) (fun a b le less => decide_eq_true (le.trans (of_decide_eq_true less))) e member
  exact not_le.mp (of_decide_eq_false stops)

theorem Ordered.insert (v : V) (k : K) : Ordered (insert v k l) := by
  have split := List.takeWhile_append_dropWhile (p := fun e : V × K => decide (e.1 ≤ v)) (l := l)
  have above := ordered.dropWhile_le v
  have below : ∀ e ∈ l.takeWhile (fun e => decide (e.1 ≤ v)), e.1 ≤ v := fun e member => le_of_mem_takeWhile member
  unfold Ordered at ordered ⊢
  rw [← split, List.pairwise_append] at ordered
  obtain ⟨front, back, _⟩ := ordered
  refine List.pairwise_append.mpr ⟨front, List.pairwise_cons.mpr ⟨fun e member => (above e member).le, back⟩, ?_⟩
  intro e member e' member'
  rcases List.mem_cons.mp member' with isNew | later
  · rw [isNew]
    exact below e member
  · exact (below e member).trans (above e' later).le

theorem Ordered.mem_equalRange : e ∈ equalRange v l ↔ e ∈ l ∧ e.1 = v := by
  have behind := ordered.dropWhile_lt v
  constructor
  · intro member
    have inside := (List.takeWhile_prefix _).subset member
    have most : e.1 ≤ v := le_of_mem_takeWhile member
    exact ⟨(List.dropWhile_suffix _).subset inside, le_antisymm most (behind e inside)⟩
  · intro ⟨member, same⟩
    have split := List.takeWhile_append_dropWhile (p := fun e : V × K => decide (e.1 < v)) (l := l)
    have inside : e ∈ l.dropWhile fun e => decide (e.1 < v) := by
      rw [← split] at member
      rcases List.mem_append.mp member with front | back
      · exact absurd same (ne_of_lt (lt_of_mem_takeWhile front))
      · exact back
    have ordered' : Ordered (l.dropWhile fun e => decide (e.1 < v)) := ordered.sublist (List.dropWhile_suffix _).sublist
    have split' := List.takeWhile_append_dropWhile (p := fun e : V × K => decide (e.1 ≤ v)) (l := l.dropWhile fun e => decide (e.1 < v))
    rw [← split'] at inside
    rcases List.mem_append.mp inside with front | back
    · exact front
    · exact absurd same (ne_of_gt (ordered'.dropWhile_le v e back))

theorem Ordered.erase [DecidableEq K] (e : V × K) : Ordered (l.erase e) := ordered.sublist List.erase_sublist

end

end StdMultimap
