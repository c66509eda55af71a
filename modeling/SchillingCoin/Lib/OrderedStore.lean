import Mathlib.Data.List.Lex
import Mathlib.Data.List.Sort

/-!
Stores of key-value pairs in the order of their keys, with a cursor that is set to a key and moved forward.
-/

universe u v

structure OrderedStore (K : Type u) (V : Type v) [LinearOrder K] where
  entries : List (K × V)
  sorted : entries.Pairwise fun e e' => e.1 < e'.1

namespace OrderedStore

variable {K : Type u} {V : Type v} [LinearOrder K]

instance : EmptyCollection (OrderedStore K V) := ⟨⟨[], .nil⟩⟩

variable (s : OrderedStore K V)

def get (k : K) : Option V := (s.entries.find? fun e => e.1 = k).map (·.2)

def erase (k : K) : OrderedStore K V :=
  ⟨s.entries.filter fun e => e.1 ≠ k, s.sorted.sublist List.filter_sublist⟩

def put (k : K) (v : V) : OrderedStore K V where
  entries := (s.entries.filter fun e => e.1 < k) ++ (k, v) :: s.entries.filter fun e => k < e.1
  sorted := by
    have less {e : K × V} (h : e ∈ s.entries.filter fun e => e.1 < k) : e.1 < k := by simpa using (List.mem_filter.mp h).2
    have more {e : K × V} (h : e ∈ s.entries.filter fun e => k < e.1) : k < e.1 := by simpa using (List.mem_filter.mp h).2
    apply List.pairwise_append.mpr
    refine ⟨s.sorted.sublist List.filter_sublist, ?_, ?_⟩
    · apply List.pairwise_cons.mpr
      exact ⟨fun e after => more after, s.sorted.sublist List.filter_sublist⟩
    · intro e before e' after
      rcases List.mem_cons.mp after with rfl | after
      · exact less before
      · exact (less before).trans (more after)

def insertNew (k : K) (v : V) : OrderedStore K V := if (s.get k).isSome then s else s.put k v

def seek (k : K) : List (K × V) := s.entries.dropWhile fun e => e.1 < k

variable {k : K} {s : OrderedStore K V} {e : K × V}

theorem find?_sorted {l : List (K × V)} (sorted : l.Pairwise fun e e' => e.1 < e'.1) (member : (k, v) ∈ l) :
    (l.find? fun e => e.1 = k) = some (k, v) := by
  induction l with
  | nil => exact absurd member List.not_mem_nil
  | cons first rest ih =>
    obtain ⟨before, sorted⟩ := List.pairwise_cons.mp sorted
    rcases List.mem_cons.mp member with rfl | member
    · exact List.find?_cons_of_pos (by simp)
    · have other : first.1 ≠ k := (before (k, v) member).ne
      rw [List.find?_cons_of_neg (by simpa using other)]
      exact ih sorted member

theorem mem_entries_iff : (k, v) ∈ s.entries ↔ s.get k = some v := by
  unfold get
  constructor
  · intro member
    rw [find?_sorted s.sorted member]
    rfl
  · intro found
    obtain ⟨e, here, value⟩ := Option.map_eq_some_iff.mp found
    have key : e.1 = k := by simpa using List.find?_some here
    rw [← key, ← value]
    exact List.mem_of_find?_eq_some here

theorem get_congr {t : OrderedStore K V} (same : ∀ v, (k, v) ∈ s.entries ↔ (k', v) ∈ t.entries) : s.get k = t.get k' := by
  apply Option.ext
  intro v
  rw [← mem_entries_iff, ← mem_entries_iff]
  exact same v

@[simp] theorem get_empty (k : K) : (∅ : OrderedStore K V).get k = none := rfl

theorem get_erase (s : OrderedStore K V) (k k' : K) : (s.erase k).get k' = if k' = k then none else s.get k' := by
  split
  · next same =>
    apply Option.eq_none_iff_forall_ne_some.mpr
    intro v found
    have kept := List.mem_filter.mp (mem_entries_iff.mpr found)
    simp [same] at kept
  · next other =>
    apply get_congr
    intro v
    simp [erase, List.mem_filter, other]

theorem get_put (s : OrderedStore K V) (k k' : K) (v : V) : (s.put k v).get k' = if k' = k then some v else s.get k' := by
  split
  · next same =>
    rw [← mem_entries_iff, same]
    simp [put]
  · next other =>
    apply get_congr
    intro w
    have apart := lt_or_gt_of_ne other
    simp only [put, List.mem_append, List.mem_cons, List.mem_filter, Prod.mk.injEq, decide_eq_true_eq, other, false_and, false_or]
    tauto

theorem get_foldl_erase (key : α → K) (xs : List α) (s : OrderedStore K V) (k : K) :
    (xs.foldl (fun s x => s.erase (key x)) s).get k = if k ∈ xs.map key then none else s.get k := by
  induction xs generalizing s with
  | nil => simp
  | cons x xs ih =>
    rw [List.foldl_cons, ih, get_erase, List.map_cons]
    by_cases later : k ∈ xs.map key
    · rw [if_pos later, if_pos (List.mem_cons_of_mem _ later)]
    · rw [if_neg later]
      by_cases here : k = key x
      · rw [if_pos here, if_pos (here ▸ List.mem_cons_self)]
      · rw [if_neg here, if_neg]
        intro gone
        rcases List.mem_cons.mp gone with same | member
        · exact here same
        · exact later member

theorem ext (same : ∀ k, s.get k = t.get k) : s = t := by
  have asymm : Std.Asymm fun e e' : K × V => e.1 < e'.1 := ⟨fun _ _ => lt_asymm⟩
  have irrefl : Std.Irrefl fun e e' : K × V => e.1 < e'.1 := ⟨fun _ => lt_irrefl _⟩
  have entries : s.entries = t.entries := by
    apply s.sorted.eq_of_mem_iff t.sorted
    intro e
    obtain ⟨k, v⟩ := e
    rw [mem_entries_iff, mem_entries_iff, same]
  cases s
  cases t
  obtain rfl := entries
  rfl

theorem get_insertNew (s : OrderedStore K V) (k k' : K) (v : V) : (s.insertNew k v).get k' = (s.get k').or (if k' = k then some v else none) := by
  unfold insertNew
  split
  · next present =>
    by_cases same : k' = k
    · obtain ⟨w, found⟩ := Option.isSome_iff_exists.mp present
      rw [same, found]
      rfl
    · rw [if_neg same, Option.or_none]
  · next absent =>
    rw [get_put]
    by_cases same : k' = k
    · have none : s.get k = none := by simpa using absent
      rw [if_pos same, if_pos same, same, none]
      rfl
    · rw [if_neg same, if_neg same, Option.or_none]

theorem get_foldl_insertNew (l : List (K × V)) (s : OrderedStore K V) (k : K) :
    (l.foldl (fun s e => s.insertNew e.1 e.2) s).get k = (s.get k).or ((l.find? fun e => e.1 = k).map (·.2)) := by
  induction l generalizing s with
  | nil => simp
  | cons e l ih =>
    rw [List.foldl_cons, ih, get_insertNew, Option.or_assoc]
    congr 1
    by_cases same : e.1 = k
    · rw [if_pos same.symm, List.find?_cons_of_pos (by simpa using same)]
      rfl
    · rw [if_neg (Ne.symm same), List.find?_cons_of_neg (by simpa using same)]
      rfl

theorem foldl_insertNew_entries (s : OrderedStore K V) : s.entries.foldl (fun s e => s.insertNew e.1 e.2) ∅ = s := by
  apply ext
  intro k
  rw [get_foldl_insertNew, get_empty, Option.none_or]
  rfl

theorem dropWhile_sorted {l : List (K × V)} (sorted : l.Pairwise fun e e' => e.1 < e'.1) (k : K) :
    (e ∈ l.dropWhile fun e => e.1 < k) ↔ e ∈ l ∧ k ≤ e.1 := by
  induction l with
  | nil => simp
  | cons first rest ih =>
    obtain ⟨before, sorted⟩ := List.pairwise_cons.mp sorted
    by_cases small : first.1 < k
    · rw [List.dropWhile_cons_of_pos (by simpa using small), ih sorted, List.mem_cons]
      constructor
      · intro h
        exact ⟨Or.inr h.1, h.2⟩
      · intro h
        rcases h with ⟨rfl | member, least⟩
        · exact absurd small (not_lt.mpr least)
        · exact ⟨member, least⟩
    · rw [List.dropWhile_cons_of_neg (by simpa using small)]
      refine ⟨fun member => ⟨member, ?_⟩, fun h => h.1⟩
      rcases List.mem_cons.mp member with rfl | member
      · exact not_lt.mp small
      · exact (not_lt.mp small).trans (before e member).le

theorem mem_seek : e ∈ s.seek k ↔ e ∈ s.entries ∧ k ≤ e.1 :=
  dropWhile_sorted s.sorted k

theorem sorted_seek (s : OrderedStore K V) (k : K) : (s.seek k).Pairwise fun e e' => e.1 < e'.1 :=
  s.sorted.sublist (List.dropWhile_sublist _)

/-- A cursor that stops at the first key outside of a class of keys that lie together passes all keys of the class. -/
theorem mem_takeWhile_seek {inside : K → Bool}
    (together : ∀ a b, k ≤ a → a < b → inside b = true → inside a = true) :
    (e ∈ (s.seek k).takeWhile fun e => inside e.1) ↔ e ∈ s.entries ∧ k ≤ e.1 ∧ inside e.1 = true := by
  have passed : ∀ l : List (K × V), (l.Pairwise fun e e' => e.1 < e'.1) → (∀ e ∈ l, k ≤ e.1) →
      ((e ∈ l.takeWhile fun e => inside e.1) ↔ e ∈ l ∧ inside e.1 = true) := by
    intro l
    induction l with
    | nil => simp
    | cons first rest ih =>
      intro sorted least
      obtain ⟨before, sorted⟩ := List.pairwise_cons.mp sorted
      by_cases here : inside first.1 = true
      · rw [List.takeWhile_cons, if_pos here, List.mem_cons, List.mem_cons,
          ih sorted fun e member => least e (List.mem_cons_of_mem _ member)]
        constructor
        · intro h
          rcases h with rfl | h
          · exact ⟨Or.inl rfl, here⟩
          · exact ⟨Or.inr h.1, h.2⟩
        · intro h
          rcases h with ⟨rfl | member, inside_⟩
          · exact Or.inl rfl
          · exact Or.inr ⟨member, inside_⟩
      · rw [List.takeWhile_cons, if_neg here]
        refine ⟨fun member => absurd member List.not_mem_nil, ?_⟩
        intro h
        rcases h with ⟨member, inside_⟩
        rcases List.mem_cons.mp member with rfl | member
        · exact absurd inside_ here
        · exact absurd (together first.1 e.1 (least first List.mem_cons_self) (before e member) inside_) here
  rw [passed _ (s.sorted_seek k) fun e member => (mem_seek.mp member).2, mem_seek, and_assoc]

end OrderedStore
