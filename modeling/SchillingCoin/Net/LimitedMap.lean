import SchillingCoin.Lib.Run
import SchillingCoin.Lib.StdMap
import SchillingCoin.Lib.StdMultimap

/-!
The map of a limited size in `limitedmap.h`: a map, and its entries again in the order of their values. An iterator into the map is the key
it is at. A call is `none` where it takes the first entry of an empty `rmap`, or where an assertion fails.
-/

namespace SchillingCoin

structure limitedmap (K V : Type) where
  map : StdMap K V := ∅
  rmap : StdMultimap V K := []
  nMaxSize : Nat

namespace limitedmap

variable {K V : Type} [DecidableEq K] [LinearOrder V]

variable (m : limitedmap K V)

def size : Nat := m.map.keys.length

/-- `map.erase(rmap.begin()->second)` and `rmap.erase(rmap.begin())`. -/
def eraseFirst : Option (limitedmap K V) :=
  match m.rmap with
  | [] => none
  | first :: rest => some { m with map := m.map.erase first.2, rmap := rest }

def insert (m : limitedmap K V) (k : K) (v : V) : Option (limitedmap K V) :=
  if (m.map.lookup k).isSome then some m
  else
    let inserted := { m with map := m.map.insert k v }
    let limited := if inserted.nMaxSize ≠ 0 ∧ inserted.size = inserted.nMaxSize then inserted.eraseFirst else some inserted
    limited.map fun m => { m with rmap := StdMultimap.insert v k m.rmap }

def erase (m : limitedmap K V) (k : K) : Option (limitedmap K V) :=
  match m.map.lookup k with
  | none => some m
  | some v =>
    if (v, k) ∈ StdMultimap.equalRange v m.rmap then some { m with map := m.map.erase k, rmap := m.rmap.erase (v, k) }
    else none

def update (k : K) (v : V) : Option (limitedmap K V) :=
  match m.map.lookup k with
  | none => some m
  | some old =>
    if (old, k) ∈ StdMultimap.equalRange old m.rmap then
      some { m with map := m.map.insert k v, rmap := StdMultimap.insert v k (m.rmap.erase (old, k)) }
    else none

def shrinkFrom (s : Nat) (map : StdMap K V) : StdMultimap V K → Option (StdMap K V × StdMultimap V K)
  | [] => if map.keys.length > s then none else some (map, [])
  | first :: rest => if map.keys.length > s then shrinkFrom s (map.erase first.2) rest else some (map, first :: rest)

def maxSize (s : Nat) : Option (limitedmap K V) :=
  if s = 0 then some { m with nMaxSize := s }
  else (shrinkFrom s m.map m.rmap).map fun parts => { map := parts.1, rmap := parts.2, nMaxSize := s }

inductive Call (K V : Type) where
  | insert (k : K) (v : V)
  | erase (k : K)
  | update (k : K) (v : V)
  | maxSize (s : Nat)
  deriving DecidableEq, Repr

def call : Call K V → Option (limitedmap K V)
  | .insert k v => m.insert k v
  | .erase k => m.erase k
  | .update k v => m.update k v
  | .maxSize s => m.maxSize s

/-- Every entry of the map is referenced exactly once, under its value, and there are no other references. -/
def Refers (rmap : StdMultimap V K) (map : StdMap K V) : Prop :=
  ∀ k v, rmap.count (v, k) = if map.lookup k = some v then 1 else 0

structure Agrees (m : limitedmap K V) : Prop where
  ordered : StdMultimap.Ordered m.rmap
  refers : Refers m.rmap m.map

variable {rmap : StdMultimap V K} {map : StdMap K V} {k : K} {v : V} {m : limitedmap K V}

theorem Refers.mem_iff (h : Refers rmap map) : (v, k) ∈ rmap ↔ map.lookup k = some v := by
  have once := h k v
  rw [← List.count_pos_iff, once]
  split
  · next found => exact iff_of_true Nat.one_pos found
  · next absent => exact iff_of_false (Nat.lt_irrefl 0) absent

theorem Refers.length_eq (h : Refers rmap map) : rmap.length = map.keys.length := by
  have single : rmap.Nodup := by
    apply List.nodup_iff_count_le_one.mpr
    intro e
    rw [h e.2 e.1]
    split <;> decide
  have keys : (rmap.map Prod.snd).Nodup := by
    apply List.Nodup.map_on _ single
    intro e member e' member' same
    have value := h.mem_iff.mp member
    rw [same, h.mem_iff.mp member'] at value
    exact Prod.ext (Option.some.inj value).symm same
  have perm : (rmap.map Prod.snd).Perm map.keys := by
    apply (List.perm_ext_iff_of_nodup keys map.nodupKeys).mpr
    intro k
    show k ∈ rmap.map Prod.snd ↔ k ∈ map.keys
    rw [← AList.mem_keys, ← AList.lookup_isSome, Option.isSome_iff_exists]
    constructor
    · intro referenced
      obtain ⟨e, member, same⟩ := List.mem_map.mp referenced
      exact ⟨e.1, same ▸ h.mem_iff.mp member⟩
    · intro ⟨v, found⟩
      exact List.mem_map.mpr ⟨(v, k), h.mem_iff.mpr found, rfl⟩
  rw [← perm.length_eq, List.length_map]

theorem Refers.erase (h : Refers rmap map) (found : map.lookup k = some v) :
    Refers (rmap.erase (v, k)) (map.erase k) := by
  intro k' v'
  rw [StdMap.lookup_erase_ite, List.count_erase, h k' v']
  by_cases same : k' = k
  · rw [same, found]
    by_cases value : v = v'
    · simp [value]
    · simp [value]
  · have other : ((v, k) == (v', k')) = false := by
      rw [beq_eq_false_iff_ne]
      exact fun equal => same (Prod.mk.inj equal).2.symm
    rw [other, if_neg same]
    rfl

theorem Refers.insert (h : Refers rmap map) (absent : map.lookup k = none) (perm : rmap'.Perm ((v, k) :: rmap))
    (lookup : ∀ k', map'.lookup k' = if k' = k then some v else map.lookup k') : Refers rmap' map' := by
  intro k' v'
  rw [perm.count_eq, List.count_cons, h k' v', lookup]
  by_cases same : k' = k
  · rw [same, absent]
    by_cases value : v = v'
    · simp [value]
    · simp [value]
  · have other : ((v, k) == (v', k')) = false := by
      rw [beq_eq_false_iff_ne]
      exact fun equal => same (Prod.mk.inj equal).2.symm
    rw [other, if_neg same]
    rfl

theorem Agrees.head_le (h : m.Agrees) (split : m.rmap = first :: rest) (found : m.map.lookup k = some v) : first.1 ≤ v := by
  have ordered := h.ordered
  have member := h.refers.mem_iff.mpr found
  rw [split] at ordered member
  rcases List.mem_cons.mp member with isFirst | later
  · exact le_of_eq (congrArg Prod.fst isFirst).symm
  · exact (List.pairwise_cons.mp ordered).1 _ later

theorem Agrees.tail (h : m.Agrees) (split : m.rmap = first :: rest) :
    m.map.lookup first.2 = some first.1 ∧ StdMultimap.Ordered rest ∧ Refers rest (m.map.erase first.2) := by
  have ordered := h.ordered
  have refers := h.refers
  rw [split] at ordered refers
  have found : m.map.lookup first.2 = some first.1 := refers.mem_iff.mp List.mem_cons_self
  have rest_ := refers.erase found
  rw [List.erase_cons_head] at rest_
  exact ⟨found, (List.pairwise_cons.mp ordered).2, rest_⟩

theorem shrinkFrom_spec (s : Nat) (ordered : StdMultimap.Ordered rmap) (refers : Refers rmap map) :
    ∃ map' rmap', shrinkFrom s map rmap = some (map', rmap') ∧ StdMultimap.Ordered rmap' ∧ Refers rmap' map' ∧ map'.keys.length ≤ s ∧
      (∀ k v, map'.lookup k = some v → map.lookup k = some v) ∧
      ∀ k v, map.lookup k = some v → map'.lookup k = none → ∀ k' v', map'.lookup k' = some v' → v ≤ v' := by
  induction rmap generalizing map with
  | nil =>
    have empty := refers.length_eq
    rw [List.length_nil] at empty
    refine ⟨map, [], by rw [shrinkFrom, if_neg (by omega)], ordered, refers, by omega, fun _ _ found => found, ?_⟩
    intro k v found gone
    exact nomatch found.symm.trans gone
  | cons first rest ih =>
    rw [shrinkFrom]
    split
    · next more =>
      have agrees : Agrees (⟨map, first :: rest, 0⟩ : limitedmap K V) := ⟨ordered, refers⟩
      obtain ⟨found, ordered', refers'⟩ := agrees.tail rfl
      obtain ⟨map', rmap', done, ordered'', refers'', small, kept, least⟩ := ih ordered' refers'
      have before : ∀ k v, map'.lookup k = some v → map.lookup k = some v := by
        intro k v there
        have here := kept k v there
        rw [StdMap.lookup_erase_ite] at here
        split at here
        · exact nomatch here
        · exact here
      refine ⟨map', rmap', done, ordered'', refers'', small, before, ?_⟩
      intro k v here gone k' v' stays
      by_cases isFirst : k = first.2
      · rw [isFirst, found] at here
        rw [← Option.some.inj here]
        exact agrees.head_le rfl (before k' v' stays)
      · exact least k v (by rw [StdMap.lookup_erase_ite, if_neg isFirst]; exact here) gone k' v' stays
    · next enough =>
      refine ⟨map, first :: rest, rfl, ordered, refers, by omega, fun _ _ found => found, ?_⟩
      intro k v found gone
      exact nomatch found.symm.trans gone

omit [LinearOrder V] in
theorem keys_length_insert (absent : map.lookup k = none) (v : V) :
    (map.insert k v).keys.length = map.keys.length + 1 := by
  rw [AList.keys_insert, List.length_cons, List.erase_of_not_mem (mt AList.mem_keys.mpr (AList.lookup_eq_none.mp absent))]

theorem insert_cases (m : limitedmap K V) (k : K) (v : V) :
    (m.map.lookup k ≠ none ∧ m.insert k v = some m) ∨
    m.map.lookup k = none ∧
      ((m.nMaxSize = 0 ∨ m.size + 1 ≠ m.nMaxSize) ∧
          m.insert k v = some { m with map := m.map.insert k v, rmap := StdMultimap.insert v k m.rmap } ∨
        m.size + 1 = m.nMaxSize ∧
          (m.rmap = [] ∧ m.insert k v = none ∨
            ∃ first rest, m.rmap = first :: rest ∧
              m.insert k v = some { m with map := (m.map.insert k v).erase first.2, rmap := StdMultimap.insert v k rest })) := by
  cases found : m.map.lookup k with
  | some w => exact Or.inl ⟨nofun, by rw [insert, found]; rfl⟩
  | none =>
    have size : (m.map.insert k v).keys.length = m.size + 1 := keys_length_insert found v
    refine Or.inr ⟨rfl, ?_⟩
    have unfolded : m.insert k v = (if m.nMaxSize ≠ 0 ∧ m.size + 1 = m.nMaxSize then
        eraseFirst { m with map := m.map.insert k v } else some { m with map := m.map.insert k v }).map
          fun m => { m with rmap := StdMultimap.insert v k m.rmap } := by
      rw [insert, found, ← size]
      rfl
    rw [unfolded]
    split
    · next full =>
      refine Or.inr ⟨full.2, ?_⟩
      cases split : m.rmap with
      | nil => exact Or.inl ⟨rfl, rfl⟩
      | cons first rest => exact Or.inr ⟨first, rest, rfl, rfl⟩
    · next room => exact Or.inl ⟨by omega, rfl⟩

theorem Agrees.insert (h : m.Agrees) (done : m.insert k v = some m') :
    m'.Agrees ∧ ∀ k' v', m.map.lookup k' = some v' → m'.map.lookup k' = none → ∀ k'' v'', m.map.lookup k'' = some v'' → v' ≤ v'' := by
  rcases m.insert_cases k v with ⟨_, same⟩ | ⟨absent, ⟨_, inserted⟩ | ⟨_, ⟨_, fails⟩ | ⟨first, rest, split, evicted⟩⟩⟩
  · obtain rfl := Option.some.inj (same.symm.trans done)
    exact ⟨h, fun k' v' found gone => nomatch found.symm.trans gone⟩
  · obtain rfl := Option.some.inj (inserted.symm.trans done)
    refine ⟨⟨h.ordered.insert v k, h.refers.insert absent (StdMultimap.insert_perm v k m.rmap) fun k' => StdMap.lookup_insert_ite _ _ _ _⟩, ?_⟩
    intro k' v' found gone
    rw [StdMap.lookup_insert_ite, found] at gone
    split at gone <;> exact nomatch gone
  · exact nomatch fails.symm.trans done
  · obtain rfl := Option.some.inj (evicted.symm.trans done)
    obtain ⟨least, ordered, refers⟩ := h.tail split
    have other : first.2 ≠ k := by
      intro same
      rw [same, absent] at least
      exact nomatch least
    have lookup : ∀ k', ((m.map.insert k v).erase first.2).lookup k' = if k' = k then some v else (m.map.erase first.2).lookup k' := by
      intro k'
      rw [StdMap.lookup_erase_ite, StdMap.lookup_insert_ite, StdMap.lookup_erase_ite]
      by_cases isNew : k' = k
      · rw [if_neg (fun same => other (same.symm.trans isNew)), if_pos isNew, if_pos isNew]
      · rw [if_neg isNew, if_neg isNew]
    have absent' : (m.map.erase first.2).lookup k = none := by
      rw [StdMap.lookup_erase_ite, absent]
      split <;> rfl
    refine ⟨⟨StdMultimap.Ordered.insert ordered v k, refers.insert absent' (StdMultimap.insert_perm v k rest) lookup⟩, ?_⟩
    intro k' v' found gone k'' v'' there
    rw [lookup, StdMap.lookup_erase_ite] at gone
    by_cases isFirst : k' = first.2
    · rw [isFirst, least] at found
      rw [← Option.some.inj found]
      exact h.head_le split there
    · rw [if_neg isFirst, found] at gone
      split at gone <;> exact nomatch gone

theorem Agrees.erase (h : m.Agrees) (k : K) :
    ∃ m', m.erase k = some m' ∧ m'.Agrees ∧ m'.nMaxSize = m.nMaxSize ∧
    m'.size ≤ m.size := by
  unfold limitedmap.erase
  split
  · exact ⟨m, rfl, h, rfl, Nat.le_refl _⟩
  · next v found =>
    have listed := h.ordered.mem_equalRange.mpr ⟨h.refers.mem_iff.mpr found, rfl⟩
    rw [if_pos listed]
    refine ⟨_, rfl, ⟨h.ordered.erase (v, k), h.refers.erase found⟩, rfl, ?_⟩
    unfold size
    rw [AList.keys_erase]
    exact List.erase_sublist.length_le

theorem Agrees.update (h : m.Agrees) (k : K) (v : V) : ∃ m', m.update k v = some m' ∧ m'.Agrees ∧
    m'.nMaxSize = m.nMaxSize ∧ m'.size = m.size := by
  unfold limitedmap.update
  split
  · exact ⟨m, rfl, h, rfl, rfl⟩
  · next old found =>
    have listed := h.ordered.mem_equalRange.mpr ⟨h.refers.mem_iff.mpr found, rfl⟩
    have absent : (m.map.erase k).lookup k = none := by rw [StdMap.lookup_erase_ite, if_pos rfl]
    have lookup : ∀ k', (m.map.insert k v).lookup k' = if k' = k then some v else (m.map.erase k).lookup k' := by
      intro k'
      rw [StdMap.lookup_insert_ite, StdMap.lookup_erase_ite]
      split <;> rfl
    rw [if_pos listed]
    refine ⟨_, rfl, ⟨StdMultimap.Ordered.insert (h.ordered.erase (old, k)) v k,
      (h.refers.erase found).insert absent (StdMultimap.insert_perm _ _ _) lookup⟩, rfl, ?_⟩
    have member : k ∈ m.map.keys := AList.mem_keys.mp (StdMap.mem_of_lookup found)
    have positive := List.length_pos_of_mem member
    unfold size
    rw [AList.keys_insert, List.length_cons, List.length_erase_of_mem member]
    omega

theorem Agrees.maxSize (h : m.Agrees) (s : Nat) :
    ∃ m', m.maxSize s = some m' ∧ m'.Agrees ∧ m'.nMaxSize = s ∧
    (s ≠ 0 → m'.size ≤ s) ∧
    ∀ k v, m.map.lookup k = some v → m'.map.lookup k = none → ∀ k' v', m'.map.lookup k' = some v' → v ≤ v' := by
  unfold limitedmap.maxSize
  split
  · next isZero =>
    exact ⟨_, rfl, ⟨h.ordered, h.refers⟩, rfl, fun other => absurd isZero other, fun k v found gone => nomatch found.symm.trans gone⟩
  · obtain ⟨map', rmap', done, ordered, refers, small, -, least⟩ := shrinkFrom_spec s h.ordered h.refers
    rw [done]
    exact ⟨_, rfl, ⟨ordered, refers⟩, rfl, fun _ => small, least⟩

/-- What the map keeps over a call that ends: its indexes agree, it is within its limit, an insertion below the limit removes nothing, and
what is removed has the least values. -/
structure Right (m : limitedmap K V) (c : Call K V) (m' : limitedmap K V) : Prop where
  agrees : m'.Agrees
  bounded : m'.nMaxSize ≠ 0 → m'.size ≤ m'.nMaxSize
  removesNothing : ∀ k v, c = .insert k v → m.map.lookup k = none → m.size < m.nMaxSize →
    ∀ k' v', m.map.lookup k' = some v' → m'.map.lookup k' = some v'
  leastInserted : ∀ k v, c = .insert k v → ∀ k' v', m.map.lookup k' = some v' → m'.map.lookup k' = none →
    ∀ k'' v'', m.map.lookup k'' = some v'' → v' ≤ v''
  leastShrunk : ∀ s, c = .maxSize s → ∀ k' v', m.map.lookup k' = some v' → m'.map.lookup k' = none →
    ∀ k'' v'', m'.map.lookup k'' = some v'' → v' ≤ v''

def CallRight (m : limitedmap K V) (c : Call K V) : Prop := ∃ m', m.call c = some m' ∧ m.Right c m'

def HasRoom (m : limitedmap K V) : Call K V → Prop
  | .insert k _ => m.map.lookup k = none → m.nMaxSize = 0 ∨ m.size + 1 < m.nMaxSize
  | _ => True

theorem Agrees.insert_right_iff (h : m.Agrees) (bounded : m.nMaxSize ≠ 0 → m.size ≤ m.nMaxSize) (k : K)
    (v : V) : m.CallRight (.insert k v) ↔ m.HasRoom (.insert k v) := by
  constructor
  · intro ⟨m', done, right⟩ absent
    rcases m.insert_cases k v with ⟨present, _⟩ | ⟨_, ⟨room, inserted⟩ | ⟨full, ⟨_, fails⟩ | ⟨first, rest, split, evicted⟩⟩⟩
    · exact absurd absent present
    · -- at the limit the map grows past it
      obtain rfl := Option.some.inj (inserted.symm.trans done)
      have size : (m.map.insert k v).keys.length = m.size + 1 := keys_length_insert absent v
      have within : m.nMaxSize ≠ 0 → m.size + 1 ≤ m.nMaxSize := size ▸ right.bounded
      omega
    · exact nomatch fails.symm.trans done
    · -- one place below the limit an entry goes
      obtain rfl := Option.some.inj (evicted.symm.trans done)
      have kept := right.removesNothing k v rfl absent (by omega) first.2 first.1 (h.tail split).1
      rw [StdMap.lookup_erase_ite, if_pos rfl] at kept
      exact nomatch kept
  · intro room
    have within : ∀ {m'}, m.insert k v = some m' → (m'.nMaxSize ≠ 0 → m'.size ≤ m'.nMaxSize) →
        (∀ k' v', m.map.lookup k' = some v' → m'.map.lookup k' = some v') → m.CallRight (.insert k v) := by
      intro m' done bounded' kept
      obtain ⟨agrees, least⟩ := h.insert done
      refine ⟨m', done, agrees, bounded', fun _ _ _ _ _ => kept, ?_, nofun⟩
      intro k' v' _
      exact least
    rcases m.insert_cases k v with ⟨_, same⟩ | ⟨absent, ⟨_, inserted⟩ | ⟨full, _⟩⟩
    · exact within same bounded fun _ _ found => found
    · have size : (m.map.insert k v).keys.length = m.size + 1 := keys_length_insert absent v
      apply within inserted
      · intro limited
        show (m.map.insert k v).keys.length ≤ m.nMaxSize
        rcases room absent with unlimited | free
        · exact absurd unlimited limited
        · omega
      · intro k' v' found
        rw [StdMap.lookup_insert_ite, if_neg, found]
        intro same
        rw [same, absent] at found
        exact nomatch found
    · have limit := room absent
      omega

theorem Agrees.right_iff (h : m.Agrees) (bounded : m.nMaxSize ≠ 0 → m.size ≤ m.nMaxSize) (c : Call K V) :
    m.CallRight c ↔ m.HasRoom c := by
  cases c with
  | insert k v => exact h.insert_right_iff bounded k v
  | erase k =>
    obtain ⟨m', done, agrees, limit, less⟩ := h.erase k
    refine iff_of_true ⟨m', done, agrees, ?_, nofun, nofun, nofun⟩ trivial
    rw [limit]
    exact fun limited => less.trans (bounded limited)
  | update k v =>
    obtain ⟨m', done, agrees, limit, same⟩ := h.update k v
    refine iff_of_true ⟨m', done, agrees, ?_, nofun, nofun, nofun⟩ trivial
    rw [limit, same]
    exact bounded
  | maxSize s =>
    obtain ⟨m', done, agrees, limit, small, least⟩ := h.maxSize s
    refine iff_of_true ⟨m', done, agrees, ?_, nofun, nofun, fun _ _ => least⟩ trivial
    rw [limit]
    exact small

theorem agrees_empty (nMaxSizeIn : Nat) : ({ nMaxSize := nMaxSizeIn } : limitedmap K V).Agrees where
  ordered := List.Pairwise.nil
  refers := fun k v => by
    rw [List.count_nil, if_neg]
    exact nofun

theorem Agrees.call (h : m.Agrees) (done : m.call c = some m') : m'.Agrees := by
  cases c with
  | insert k v => exact (h.insert done).1
  | erase k =>
    obtain ⟨t, done', agrees, _⟩ := h.erase k
    obtain rfl := Option.some.inj (done'.symm.trans done)
    exact agrees
  | update k v =>
    obtain ⟨t, done', agrees, _⟩ := h.update k v
    obtain rfl := Option.some.inj (done'.symm.trans done)
    exact agrees
  | maxSize s =>
    obtain ⟨t, done', agrees, _⟩ := h.maxSize s
    obtain rfl := Option.some.inj (done'.symm.trans done)
    exact agrees

/-- After any calls that end, the two indexes hold the same entries, also where the map is above its maximum. -/
theorem agrees_throughout (nMaxSizeIn : Nat) (calls : List (Call K V)) {m : limitedmap K V}
    (reached : Run.after limitedmap.call { nMaxSize := nMaxSizeIn } calls = some m) : m.Agrees := by
  induction calls using List.reverseRecOn generalizing m with
  | nil =>
    rw [← Option.some.inj reached]
    exact agrees_empty nMaxSizeIn
  | append_singleton calls c ih =>
    rw [Run.after_append] at reached
    obtain ⟨s, here, done⟩ := Option.bind_eq_some_iff.mp reached
    exact (ih here).call done

theorem agrees_throughout_two : ∃ m : limitedmap Nat Nat,
    Run.after limitedmap.call { nMaxSize := 2 } [.insert 1 20, .update 1 10] = some m ∧ m.Agrees :=
  ⟨_, rfl, agrees_throughout 2 [.insert 1 20, .update 1 10] rfl⟩

/-- Every call of a run is right exactly when every new key finds two free places. -/
theorem calls_right_iff (nMaxSizeIn : Nat) (calls : List (Call K V)) :
    (∀ before c, before ++ [c] <+: calls → ∀ m, Run.after limitedmap.call { nMaxSize := nMaxSizeIn } before = some m → m.CallRight c) ↔
      ∀ before c, before ++ [c] <+: calls → ∀ m, Run.after limitedmap.call { nMaxSize := nMaxSizeIn } before = some m → m.HasRoom c := by
  apply Run.steps_iff_meets fun m : limitedmap K V => m.Agrees ∧ (m.nMaxSize ≠ 0 → m.size ≤ m.nMaxSize)
  · exact ⟨agrees_empty nMaxSizeIn, fun _ => Nat.zero_le _⟩
  · intro m c m' _ isRight done
    obtain ⟨m'', done', right⟩ := isRight
    obtain rfl := Option.some.inj (done'.symm.trans done)
    exact ⟨right.agrees, right.bounded⟩
  · intro m c inv
    exact inv.1.right_iff inv.2 c

/-- The second insertion into a map for two entries takes the first one out. -/
theorem two_places : ¬∀ before c, before ++ [c] <+: [Call.insert 1 10, Call.insert 2 20] → ∀ m : limitedmap Nat Nat,
    Run.after limitedmap.call { nMaxSize := 2 } before = some m → m.CallRight c := by
  intro always
  obtain ⟨m', done, right⟩ := always [.insert 1 10] (.insert 2 20) (List.prefix_refl _) _ rfl
  obtain rfl := Option.some.inj done
  exact absurd (right.removesNothing 2 20 rfl rfl (by decide) 1 10 rfl) (by decide)

end limitedmap

end SchillingCoin
