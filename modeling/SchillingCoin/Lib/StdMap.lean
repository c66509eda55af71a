import Mathlib.Data.List.AList
import Mathlib.Algebra.BigOperators.Group.List.Basic

/-!
Finite maps with one value for a key, as `std::map` and `unordered_map` hold them: lookup,
insertion, erasure, filtering, and sums over the entries. The carrier is `AList`.
-/

universe u v w

/-- A finite map from `K` to `V`. The order of its entries carries no meaning. -/
abbrev StdMap (K : Type u) (V : Type v) := AList (fun _ : K => V)

namespace StdMap

variable {K : Type u} {V : Type v} [DecidableEq K]

@[simp] theorem lookup_insert_ite (m : StdMap K V) (k k' : K) (v : V) :
    (m.insert k v).lookup k' = if k' = k then some v else m.lookup k' := by
  by_cases same : k' = k
  · subst same
    simp
  · simp [same, AList.lookup_insert_ne]

@[simp] theorem lookup_erase_ite (m : StdMap K V) (k k' : K) :
    (m.erase k).lookup k' = if k' = k then none else m.lookup k' := by
  by_cases same : k' = k
  · subst same
    simp
  · simp [same, AList.lookup_erase_ne]

def insertNew (m : StdMap K V) (k : K) (v : V) : StdMap K V := if (m.lookup k).isSome then m else m.insert k v

theorem mem_of_lookup {m : StdMap K V} (h : m.lookup k = some v) : k ∈ m :=
  AList.lookup_isSome.mp (by simp [h])

theorem mem_entries_iff {m : StdMap K V} : ⟨k, v⟩ ∈ m.entries ↔ m.lookup k = some v :=
  AList.mem_lookup_iff.symm

def filter (test : K → V → Bool) (m : StdMap K V) : StdMap K V :=
  ⟨m.entries.filter fun e => test e.1 e.2, m.nodupKeys.sublist List.filter_sublist⟩

@[simp] theorem lookup_filter (test : K → V → Bool) (m : StdMap K V) (k : K) :
    (filter test m).lookup k = (m.lookup k).filter (test k) := by
  apply Option.ext
  intro v
  rw [← mem_entries_iff, Option.filter_eq_some_iff, ← mem_entries_iff]
  simp [filter]

def mapVal {W : Type v} (f : V → W) (m : StdMap K V) : StdMap K W :=
  ⟨m.entries.map fun e => ⟨e.1, f e.2⟩, by
    have keys : (m.entries.map fun e => (⟨e.1, f e.2⟩ : Sigma fun _ : K => W)).map Sigma.fst = m.entries.map Sigma.fst := by
      rw [List.map_map]
      rfl
    rw [List.NodupKeys, List.keys, keys]
    exact m.nodupKeys⟩

@[simp] theorem lookup_mapVal {W : Type v} (f : V → W) (m : StdMap K V) (k : K) :
    (mapVal f m).lookup k = (m.lookup k).map f := by
  apply Option.ext
  intro w
  rw [← mem_entries_iff, Option.map_eq_some_iff]
  constructor
  · intro member
    obtain ⟨e, listed, same⟩ := List.mem_map.mp member
    obtain ⟨rfl, rfl⟩ := Sigma.mk.inj_iff.mp same
    exact ⟨e.2, mem_entries_iff.mp listed, rfl⟩
  · rintro ⟨v, found, rfl⟩
    exact List.mem_map.mpr ⟨⟨k, v⟩, mem_entries_iff.mpr found, rfl⟩

section Sums

variable {M : Type w} [AddCommMonoid M]

def sum (weight : K → V → M) (m : StdMap K V) : M :=
  (m.entries.map fun e => weight e.1 e.2).sum

variable (weight : K → V → M)

/-- The weight of the entry of one key, zero without an entry. -/
def weightAt (m : StdMap K V) (k : K) : M :=
  (m.lookup k).elim 0 (weight k)

omit [DecidableEq K] in
@[simp] theorem sum_empty : sum weight (∅ : StdMap K V) = 0 := rfl

theorem entries_erase (m : StdMap K V) (k : K) : (m.erase k).entries = m.entries.kerase k := rfl

theorem sum_insert (m : StdMap K V) (k : K) (v : V) : sum weight (m.insert k v) = weight k v + sum weight (m.erase k) := by
  simp [sum, AList.entries_insert, entries_erase]

theorem sum_erase (m : StdMap K V) (k : K) : sum weight m = weightAt weight m k + sum weight (m.erase k) := by
  by_cases present : k ∈ m
  · obtain ⟨v, front, back, absent, split, rest⟩ := List.exists_of_kerase (AList.mem_keys.mp present)
    have found : m.lookup k = some v := mem_entries_iff.mp (by rw [split]; simp)
    simp only [sum, weightAt, found, Option.elim_some, entries_erase, rest]
    rw [split]
    simp [add_left_comm]
  · have none := AList.lookup_eq_none.mpr present
    have same : m.erase k = m := AList.ext (List.kerase_of_notMem_keys (mt AList.mem_keys.mpr present))
    simp [weightAt, none, same]

theorem sum_insert_absent (v : V) (absent : m.lookup k = none) : sum weight (m.insert k v) = weight k v + sum weight m := by
  rw [sum_insert, sum_erase weight m k]
  simp [weightAt, absent]

theorem sum_replace {G : Type w} [AddCommGroup G] (weight : K → V → G) (v' : V) (found : m.lookup k = some v) :
    sum weight (m.insert k v') = sum weight m - weight k v + weight k v' := by
  rw [sum_insert, sum_erase weight m k, weightAt, found, Option.elim_some, add_sub_cancel_left, add_comm]

theorem sum_eq_zero (weightless : ∀ k v, m.lookup k = some v → weight k v = 0) : sum weight m = 0 := by
  apply List.sum_eq_zero
  intro x weighed
  obtain ⟨e, mem, rfl⟩ := List.mem_map.mp weighed
  exact weightless e.1 e.2 (mem_entries_iff.mp mem)

theorem weightAt_erase (m : StdMap K V) (k k' : K) :
    weightAt weight (m.erase k) k' = if k' = k then 0 else weightAt weight m k' := by
  unfold weightAt
  rw [lookup_erase_ite]
  split <;> rfl

theorem sum_congr (same : ∀ k, weightAt weight m k = weightAt weight m' k) : sum weight m = sum weight m' := by
  induction size : m.keys.length generalizing m m' with
  | zero =>
    have empty : m.entries = [] := by simpa [AList.keys, List.keys] using size
    have none : ∀ k, m.lookup k = none := fun k => by simp [AList.lookup, empty]
    rw [sum_eq_zero weight fun k v found => absurd ((none k).symm.trans found) (by simp),
      sum_eq_zero weight fun k v found => ?_]
    simpa [weightAt, none, found] using (same k).symm
  | succ n ih =>
    obtain ⟨k, mem⟩ := List.exists_mem_of_length_pos (l := m.keys) (by omega)
    rw [sum_erase weight m k, sum_erase weight m' k, same k]
    congr 1
    apply ih
    · intro k'
      rw [weightAt_erase, weightAt_erase, same k']
    · rw [AList.keys_erase, List.length_erase_of_mem mem, size]
      rfl

theorem entries_perm_mapIdx {U : Type*} {f : Nat → U → V} {l : List U} {m : StdMap Nat V} (at_ : ∀ n, m.lookup n = l[n]?.map (f n)) :
    m.entries.Perm (l.mapIdx fun n u => ⟨n, f n u⟩) := by
  have keys : (l.mapIdx fun n u => (⟨n, f n u⟩ : Sigma fun _ : Nat => V)).map Sigma.fst = List.range l.length := by
    apply List.ext_getElem <;> simp
  have distinct : (l.mapIdx fun n u => (⟨n, f n u⟩ : Sigma fun _ : Nat => V)).Nodup := by
    apply List.Nodup.of_map Sigma.fst
    rw [keys]
    exact List.nodup_range
  apply (List.perm_ext_iff_of_nodup m.nodupKeys.nodup distinct).mpr
  intro ⟨n, v⟩
  rw [mem_entries_iff, at_, List.mem_iff_getElem?]
  simp only [List.getElem?_mapIdx]
  constructor
  · intro here
    obtain ⟨u, listed, rfl⟩ := Option.map_eq_some_iff.mp here
    exact ⟨n, by rw [listed, Option.map_some]⟩
  · intro ⟨i, here⟩
    obtain ⟨u, listed, same⟩ := Option.map_eq_some_iff.mp here
    cases same
    rw [listed, Option.map_some]

theorem sum_positions {U : Type*} {f : Nat → U → V} {l : List U} {m : StdMap Nat V} (at_ : ∀ n, m.lookup n = l[n]?.map (f n))
    {weight : Nat → V → M} {weight' : U → M} (weighs : ∀ n u, weight n (f n u) = weight' u) : sum weight m = (l.map weight').sum := by
  have same : (l.mapIdx fun n u => (⟨n, f n u⟩ : Sigma fun _ : Nat => V)).map (fun e => weight e.1 e.2) = l.map weight' := by
    apply List.ext_getElem
    · simp
    · intro i here there
      simp [weighs]
  rw [sum, ((entries_perm_mapIdx at_).map fun e => weight e.1 e.2).sum_eq, same]

end Sums

section Loops

variable {S : Type w} {A : Type*} (step : S → K → V → Option S) (slot : S → K → A)

/-- A loop that at each entry rewrites only the slot of that entry's key leaves, in every slot, what
one pass at that key leaves. -/
theorem foldlM_slot (frame : ∀ s k v s', step s k v = some s' → ∀ k', k' ≠ k → slot s' k' = slot s k') (m : StdMap K V)
    (h : m.entries.foldlM (fun s e => step s e.1 e.2) s = some t) (k : K) :
    (m.lookup k = none → slot t k = slot s k) ∧
    ∀ v, m.lookup k = some v → ∃ a b, slot a k = slot s k ∧ step a k v = some b ∧ slot t k = slot b k := by
  obtain ⟨entries, nodup⟩ := m
  simp only [AList.lookup] at *
  induction entries generalizing s with
  | nil =>
    simp only [List.foldlM_nil, Option.pure_def, Option.some.injEq] at h
    simp [h]
  | cons e rest ih =>
    obtain ⟨key, value⟩ := e
    obtain ⟨absent, nodup⟩ := List.nodupKeys_cons.mp nodup
    simp only [List.foldlM_cons, Option.bind_eq_bind, Option.bind_eq_some_iff] at h
    obtain ⟨mid, first, h⟩ := h
    obtain ⟨without, found⟩ := ih nodup h
    by_cases same : k = key
    · subst same
      have tail : List.dlookup k rest = none := List.dlookup_eq_none.mpr absent
      simp only [List.dlookup_cons_eq, reduceCtorEq, false_implies, Option.some.injEq, true_and]
      rintro v rfl
      exact ⟨s, mid, rfl, first, without tail⟩
    · rw [List.dlookup_cons_ne _ _ same]
      have kept := frame _ _ _ _ first k same
      refine ⟨fun none => (without none).trans kept, fun v hv => ?_⟩
      obtain ⟨a, b, before, here, after⟩ := found v hv
      exact ⟨a, b, before.trans kept, here, after⟩

theorem foldlM_slot_exists
    (frame : ∀ s k v s', step s k v = some s' → ∀ k', k' ≠ k → slot s' k' = slot s k')
    (m : StdMap K V) (s : S)
    (ok : ∀ k v, m.lookup k = some v → ∀ a, slot a k = slot s k → ∃ b, step a k v = some b) :
    ∃ t, m.entries.foldlM (fun s e => step s e.1 e.2) s = some t := by
  obtain ⟨entries, nodup⟩ := m
  simp only [AList.lookup] at *
  induction entries generalizing s with
  | nil => exact ⟨s, rfl⟩
  | cons e rest ih =>
    obtain ⟨key, value⟩ := e
    obtain ⟨absent, nodup⟩ := List.nodupKeys_cons.mp nodup
    obtain ⟨mid, first⟩ := ok key value (List.dlookup_cons_eq _ _ _) s rfl
    have later : ∀ k v, List.dlookup k rest = some v → ∀ a, slot a k = slot mid k → ∃ b, step a k v = some b := by
      intro k v hv a ha
      have other : k ≠ key := by
        rintro rfl
        rw [List.dlookup_eq_none.mpr absent] at hv
        exact absurd hv (by simp)
      exact ok k v (by rw [List.dlookup_cons_ne _ _ other]; exact hv) a (ha.trans (frame _ _ _ _ first k other))
    obtain ⟨t, h⟩ := ih mid nodup later
    exact ⟨t, by simp [first, h]⟩

/-- A loop whose passes only drop bindings: a binding survives the loop when no entry drops it. -/
theorem foldl_drops {X B : Type*} (pass : S → K → V → S) (look : S → X → Option B) (drops : S → K → V → X → Prop)
    (m : StdMap K V)
    (one : ∀ k v, m.lookup k = some v → ∀ s x b, look (pass s k v) x = some b ↔ look s x = some b ∧ ¬drops s k v x)
    (apart : ∀ k v, m.lookup k = some v → ∀ s k' v' x, k' ≠ k → (drops (pass s k v) k' v' x ↔ drops s k' v' x))
    (s : S) (x : X) (b : B) :
    look (m.entries.foldl (fun s e => pass s e.1 e.2) s) x = some b ↔
      look s x = some b ∧ ∀ k v, m.lookup k = some v → ¬drops s k v x := by
  obtain ⟨entries, nodup⟩ := m
  simp only [AList.lookup] at *
  induction entries generalizing s with
  | nil => simp
  | cons e rest ih =>
    obtain ⟨key, value⟩ := e
    obtain ⟨absent, nodup⟩ := List.nodupKeys_cons.mp nodup
    have other : ∀ k v, List.dlookup k rest = some v → k ≠ key := by
      rintro k v found rfl
      rw [List.dlookup_eq_none.mpr absent] at found
      cases found
    have lift : ∀ k v, List.dlookup k rest = some v → List.dlookup k (⟨key, value⟩ :: rest) = some v := by
      intro k v found
      rw [List.dlookup_cons_ne _ _ (other k v found)]
      exact found
    have first : List.dlookup key (⟨key, value⟩ :: rest : List (Sigma fun _ : K => V)) = some value := List.dlookup_cons_eq _ _ _
    rw [List.foldl_cons,
      ih _ nodup (fun k v found => one k v (lift k v found)) (fun k v found => apart k v (lift k v found)), one key value first, and_assoc]
    refine and_congr_right fun _ => ⟨fun ⟨here, later⟩ k v found => ?_, fun kept => ⟨kept key value first, fun k v found => ?_⟩⟩
    · by_cases same : k = key
      · subst same
        rw [first] at found
        obtain rfl := Option.some.inj found
        exact here
      · rw [List.dlookup_cons_ne _ _ same] at found
        exact fun dropped => later k v found ((apart key value first s k v x same).mpr dropped)
    · exact fun dropped => kept k v (lift k v found) ((apart key value first s k v x (other k v found)).mp dropped)

end Loops

section Writes

variable {I : Type*}

theorem lookup_foldl_erase (keyOf : I → K) (l : List I) (m : StdMap K V) (k : K) (v : V) :
    (l.foldl (fun m i => m.erase (keyOf i)) m).lookup k = some v ↔ m.lookup k = some v ∧ k ∉ l.map keyOf := by
  induction l generalizing m with
  | nil => simp
  | cons i rest ih =>
    rw [List.foldl_cons, ih, lookup_erase_ite, List.map_cons, List.mem_cons, not_or]
    by_cases same : k = keyOf i
    · simp [same]
    · simp [same]

theorem lookup_foldl_insertNew (keyOf : I → K) (v : V) (l : List I) (m : StdMap K V) (k : K) :
    (l.foldl (fun m i => if (m.lookup (keyOf i)).isSome then m else m.insert (keyOf i) v) m).lookup k =
      (m.lookup k).or (if k ∈ l.map keyOf then some v else none) := by
  induction l generalizing m with
  | nil => simp
  | cons i rest ih =>
    rw [List.foldl_cons, ih]
    by_cases present : (m.lookup (keyOf i)).isSome
    · rw [if_pos present]
      by_cases same : k = keyOf i
      · subst same
        obtain ⟨w, found⟩ := Option.isSome_iff_exists.mp present
        simp [found]
      · simp [same]
    · rw [if_neg present, lookup_insert_ite]
      have absent : m.lookup (keyOf i) = none := by simpa using present
      by_cases same : k = keyOf i
      · subst same
        simp [absent]
      · simp [same]

end Writes

end StdMap
