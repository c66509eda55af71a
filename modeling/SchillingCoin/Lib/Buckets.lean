import Mathlib.Data.Fintype.Card

/-!
Hash tables of buckets: an id may be stored in several buckets, in each at one place that is computed for it.
-/

universe u v w

namespace Buckets

variable {B : Type u} {P : Type v} {I : Type w}

abbrev Table (B : Type u) (P : Type v) (I : Type w) := B → P → Option I

section Places

variable [DecidableEq B] [DecidableEq P]

variable (table : Table B P I) (bucket : B) (place : P) (id : Option I)

def set : Table B P I :=
  fun b p => if b = bucket ∧ p = place then id else table b p

theorem set_apply (b : B) (p : P) :
    set table bucket place id b p = if b = bucket ∧ p = place then id else table b p := rfl

@[simp] theorem set_self : set table bucket place id bucket place = id :=
  if_pos ⟨rfl, rfl⟩

variable {table : Table B P I} {bucket : B} {place : P} {id : Option I}

theorem set_other (other : ¬(b = bucket ∧ p = place)) :
    set table bucket place id b p = table b p := if_neg other

theorem set_same (here : table bucket place = id) : set table bucket place id = table := by
  funext b p
  rw [set_apply]
  split
  · next spot => rw [spot.1, spot.2, here]
  · rfl

theorem of_set (here : set table bucket place id b p = some x) (other : id ≠ some x) :
    table b p = some x ∧ ¬(b = bucket ∧ p = place) := by
  rw [set_apply] at here
  split at here
  · exact absurd here other
  · next elsewhere => exact ⟨here, elsewhere⟩

theorem set_eq_some_iff (old : table bucket place ≠ some x) (other : id ≠ some x) (b : B) (p : P) :
    set table bucket place id b p = some x ↔ table b p = some x := by
  refine ⟨fun here => (of_set here other).1, fun here => ?_⟩
  rw [set_other, here]
  rintro ⟨rfl, rfl⟩
  exact old here

end Places

section Counts

variable [Fintype B] [DecidableEq I]

def count (table : Table B P I) (place : B → P) (id : I) : Nat := (Finset.univ.filter fun b => table b (place b) = some id).card

variable {table : Table B P I} {place : B → P} {id : I}

theorem count_congr (same : ∀ b, table' b (place b) = some id ↔ table b (place b) = some id) :
    count table' place id = count table place id := by
  unfold count
  congr 1
  ext b
  simp [same b]

theorem count_eq_zero : count table place id = 0 ↔ ∀ b, table b (place b) ≠ some id := by
  simp [count, Finset.filter_eq_empty_iff]

variable [DecidableEq B] [DecidableEq P]

theorem count_cleared (here : table b (place b) = some id) :
    count table place id = count (set table b (place b) none) place id + 1 := by
  unfold count
  have split : (Finset.univ.filter fun b => table b (place b) = some id) =
      insert b (Finset.univ.filter fun b' => set table b (place b) none b' (place b') = some id) := by
    ext b'
    by_cases same : b' = b
    · subst same
      simp [here]
    · simp [set_apply, same]
  rw [split, Finset.card_insert_of_notMem]
  simp

theorem count_filled (empty : table b (place b) = none) :
    count (set table b (place b) (some id)) place id = count table place id + 1 := by
  rw [count_cleared (set_self table b (place b) (some id))]
  congr 1
  apply count_congr
  intro b'
  by_cases same : b' = b
  · subst same
    simp [empty]
  · simp [set_apply, same]

omit [Fintype B] [DecidableEq B] [DecidableEq P] in
def held (table : Table B P I) (id : I) (slot : B × P) : Bool := decide (table slot.1 slot.2 = some id)

theorem countP_held (own : ∀ b p, table b p = some id → p = place b) {slots : List (B × P)}
    (distinct : slots.Nodup) (all_ : ∀ slot, slot ∈ slots) :
    slots.countP (held table id) = count table place id := by
  have places : (slots.filter (held table id)).toFinset = (Finset.univ.filter fun b => table b (place b) = some id).image fun b => (b, place b) := by
    ext ⟨b, p⟩
    simp only [held, List.mem_toFinset, List.mem_filter, all_, true_and, decide_eq_true_eq, Finset.mem_image, Finset.mem_filter,
      Finset.mem_univ, Prod.mk.injEq]
    constructor
    · intro here
      obtain rfl := own b p here
      exact ⟨b, here, rfl, rfl⟩
    · rintro ⟨_, here, rfl, rfl⟩
      exact here
  have apart : Function.Injective fun b => (b, place b) := fun b b' same => (Prod.mk.inj same).1
  rw [List.countP_eq_length_filter, ← List.toFinset_card_of_nodup (distinct.filter _), places, Finset.card_image_of_injective _ apart]
  rfl

variable (place : B → P) (id : I) (left : Table B P I × Int) (b : B)

/-- One bucket of a sweep that takes an id out of its places and off its count. -/
def sweep : Table B P I × Int :=
  if left.1 b (place b) = some id then (set left.1 b (place b) none, left.2 - 1) else left

omit [Fintype B] in
theorem sweep_table (bucket b : B) (p : P) (x : I) :
    (sweep place id left bucket).1 b p = some x ↔ left.1 b p = some x ∧ ¬(b = bucket ∧ p = place b ∧ x = id) := by
  unfold sweep
  split
  · next here =>
    dsimp only
    rw [set_apply]
    split
    · next spot =>
      rw [spot.1, spot.2, here]
      constructor
      · nofun
      · rintro ⟨same, elsewhere⟩
        exact absurd ⟨rfl, rfl, (Option.some.inj same).symm⟩ elsewhere
    · next elsewhere =>
      refine (and_iff_left ?_).symm
      rintro ⟨rfl, rfl, _⟩
      exact elsewhere ⟨rfl, rfl⟩
  · next absent =>
    constructor
    · intro there
      refine ⟨there, ?_⟩
      rintro ⟨rfl, rfl, rfl⟩
      exact absent there
    · exact And.left

theorem sweep_count :
    (sweep place id left b).2 - count (sweep place id left b).1 place id = left.2 - count left.1 place id := by
  unfold sweep
  split
  · next here =>
    rw [count_cleared here]
    dsimp only
    omega
  · rfl

omit [Fintype B] in
theorem foldl_sweep_table (buckets : List B) (left : Table B P I × Int) (b : B) (p : P) (x : I) :
    (buckets.foldl (sweep place id) left).1 b p = some x ↔ left.1 b p = some x ∧ ¬(b ∈ buckets ∧ p = place b ∧ x = id) := by
  induction buckets generalizing left with
  | nil => simp
  | cons bucket buckets ih =>
    rw [List.foldl_cons, ih, sweep_table, List.mem_cons]
    tauto

theorem foldl_sweep_count (buckets : List B) (left : Table B P I × Int) :
    (buckets.foldl (sweep place id) left).2 - count (buckets.foldl (sweep place id) left).1 place id = left.2 - count left.1 place id := by
  induction buckets generalizing left with
  | nil => rfl
  | cons bucket buckets ih => rw [List.foldl_cons, ih, sweep_count]

end Counts

end Buckets
