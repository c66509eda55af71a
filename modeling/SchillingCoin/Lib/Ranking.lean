import Mathlib.Data.List.Sort
import Mathlib.Data.List.Nodup
import Mathlib.Data.List.Perm.Basic

/-!
Rankings by score. A sort is known only by what it promises: a permutation, the scores in descending order. Entries are
told apart by a key. Where scores differ, the place of an entry is the number of entries above it; entries of equal
scores may come in either order.
-/

namespace SchillingCoin

variable {α β κ : Type*} [LinearOrder β] [DecidableEq κ]

structure IsRanking (score : α → β) (l s : List α) : Prop where
  perm : s.Perm l
  sorted : s.Pairwise fun a b => score b ≤ score a

namespace Ranking

def place (key : α → κ) (s : List α) (k : κ) : ℕ := (s.map key).idxOf k

def place? (key : α → κ) (s : List α) (k : κ) : Option ℕ := if k ∈ s.map key then some (place key s k) else none

def Strict (score : α → β) (key : α → κ) (l : List α) : Prop := ∀ a ∈ l, ∀ b ∈ l, key a ≠ key b → score a ≠ score b

variable {score : α → β} {key : α → κ} {l s : List α}

theorem place_lt (key : α → κ) (member : a ∈ s) : place key s (key a) < s.length := by
  unfold place
  simpa using List.idxOf_lt_length_iff.mpr (List.mem_map_of_mem (f := key) member)

theorem getElem?_place (unique : (s.map key).Nodup) (member : a ∈ s) : s[place key s (key a)]? = some a := by
  have bound := place_lt key member
  rw [List.getElem?_eq_getElem bound]
  have sameKey : key s[place key s (key a)] = key a := by
    have at_ := @List.getElem_idxOf κ _ _ (key a) (s.map key) (by simpa [place] using bound)
    rwa [List.getElem_map] at at_
  exact congrArg some (List.inj_on_of_nodup_map unique (List.getElem_mem bound) member sameKey)

theorem place_getElem (unique : (s.map key).Nodup) (bound : i < s.length) : place key s (key s[i]) = i := by
  have at_ := unique.idxOf_getElem i (by simpa using bound)
  simpa [place] using at_

theorem place_injective (unique : (s.map key).Nodup) (ha : a ∈ s) (hb : b ∈ s)
    (same : place key s (key a) = place key s (key b)) : a = b := by
  have first := getElem?_place unique ha
  rw [same, getElem?_place unique hb] at first
  exact (Option.some.inj first).symm

end Ranking

namespace IsRanking

open Ranking

variable {score : α → β} {key : α → κ} {l s : List α}

omit [DecidableEq κ] in
theorem insertionSort (score : α → β) (l : List α) : IsRanking score l (l.insertionSort fun a b => score b ≤ score a) := by
  have : Std.Total fun a b : α => score b ≤ score a := ⟨fun a b => le_total (score b) (score a)⟩
  have : IsTrans α fun a b => score b ≤ score a := ⟨fun _ _ _ first second => le_trans second first⟩
  exact ⟨List.perm_insertionSort _ l, List.pairwise_insertionSort _ l⟩

omit [DecidableEq κ] in
theorem unique (ranking : IsRanking score l s) (unique : (l.map key).Nodup) : (s.map key).Nodup :=
  (ranking.perm.map key).nodup_iff.mpr unique

theorem mem_iff (ranking : IsRanking score l s) : a ∈ s ↔ a ∈ l := ranking.perm.mem_iff

theorem le_of_place_lt (ranking : IsRanking score l s) (unique : (l.map key).Nodup) (ha : a ∈ l) (hb : b ∈ l)
    (before : place key s (key a) < place key s (key b)) : score b ≤ score a := by
  have unique' := ranking.unique unique
  have ha' := ranking.mem_iff.mpr ha
  have hb' := ranking.mem_iff.mpr hb
  obtain ⟨boundA, atA⟩ := List.getElem?_eq_some_iff.mp (getElem?_place unique' ha')
  obtain ⟨boundB, atB⟩ := List.getElem?_eq_some_iff.mp (getElem?_place unique' hb')
  have ordered := List.pairwise_iff_getElem.mp ranking.sorted _ _ boundA boundB before
  rwa [atA, atB] at ordered

theorem place_lt_of_lt (ranking : IsRanking score l s) (unique : (l.map key).Nodup) (ha : a ∈ l) (hb : b ∈ l)
    (above : score b < score a) : place key s (key a) < place key s (key b) := by
  rcases Nat.lt_trichotomy (place key s (key a)) (place key s (key b)) with before | same | after
  · exact before
  · have equal := place_injective (ranking.unique unique) (ranking.mem_iff.mpr ha) (ranking.mem_iff.mpr hb) same
    exact absurd above (by rw [equal]; exact lt_irrefl _)
  · exact absurd (ranking.le_of_place_lt unique hb ha after) (not_le.mpr above)

theorem place_eq_countP (ranking : IsRanking score l s) (unique : (l.map key).Nodup) (ha : a ∈ l)
    (apart : ∀ b ∈ l, key b ≠ key a → score b ≠ score a) :
    place key s (key a) = l.countP fun b => decide (score a < score b) := by
  have unique' := ranking.unique unique
  obtain ⟨before, after, split⟩ := List.append_of_mem (ranking.mem_iff.mpr ha)
  rw [split] at unique'
  rw [← ranking.perm.countP_eq, split]
  have sorted := ranking.sorted
  rw [split] at sorted
  obtain ⟨_, later, earlier⟩ := List.pairwise_append.mp sorted
  simp only [List.map_append, List.map_cons, List.nodup_append, List.nodup_cons, List.mem_map, List.mem_cons] at unique'
  have fresh : key a ∉ before.map key := by
    intro found
    obtain ⟨b, hb, same⟩ := List.mem_map.mp found
    exact unique'.2.2 (key b) ⟨b, hb, rfl⟩ (key a) (Or.inl rfl) same
  -- All that stands before is greater, and nothing after is.
  have allGreater : before.countP (fun b => decide (score a < score b)) = before.length := by
    apply List.countP_eq_length.mpr
    intro b hb
    have listed : b ∈ l := ranking.mem_iff.mp (by rw [split]; exact List.mem_append_left _ hb)
    have other : key b ≠ key a := fun same => fresh (List.mem_map.mpr ⟨b, hb, same⟩)
    exact decide_eq_true (lt_of_le_of_ne (earlier b hb a (by simp)) (apart b listed other).symm)
  have notGreater : (a :: after).countP (fun b => decide (score a < score b)) = 0 := by
    apply List.countP_eq_zero.mpr
    intro b hb
    rcases List.mem_cons.mp hb with rfl | hb
    · simp
    · simpa using (List.pairwise_cons.mp later).1 b hb
  rw [List.countP_append, allGreater, notGreater]
  unfold place
  rw [List.map_append, List.idxOf_append_of_notMem fresh]
  simp

theorem exists_before (unique : (l.map key).Nodup) (ha : a ∈ l) (hb : b ∈ l) (different : key a ≠ key b)
    (above : score b ≤ score a) : ∃ s, IsRanking score l s ∧ place key s (key a) < place key s (key b) := by
  -- Ties are broken in favour of `a`.
  let le : α → α → Bool := fun x y => decide (score y < score x ∨ score x = score y ∧ (key x = key a ∨ key y ≠ key a))
  have trans : ∀ x y z, le x y → le y z → le x z := by
    intro x y z xy yz
    simp only [le, decide_eq_true_eq] at xy yz ⊢
    rcases xy with xy | ⟨xy, keyXY⟩ <;> rcases yz with yz | ⟨yz, keyYZ⟩
    · exact Or.inl (lt_trans yz xy)
    · exact Or.inl (yz ▸ xy)
    · exact Or.inl (xy ▸ yz)
    · refine Or.inr ⟨xy.trans yz, ?_⟩
      rcases keyXY with keyXY | keyXY
      · exact Or.inl keyXY
      · exact Or.inr (keyYZ.resolve_left keyXY)
  have total : ∀ x y, le x y || le y x := by
    intro x y
    simp only [le, Bool.or_eq_true, decide_eq_true_eq]
    rcases lt_trichotomy (score x) (score y) with less | same | more
    · exact Or.inr (Or.inl less)
    · by_cases first : key x = key a
      · exact Or.inl (Or.inr ⟨same, Or.inl first⟩)
      · exact Or.inr (Or.inr ⟨same.symm, Or.inr first⟩)
    · exact Or.inl (Or.inl more)
  have sorted := List.pairwise_mergeSort trans total l
  have ranking : IsRanking score l (l.mergeSort le) := by
    refine ⟨List.mergeSort_perm l le, sorted.imp ?_⟩
    intro x y xy
    simp only [le, decide_eq_true_eq] at xy
    rcases xy with xy | ⟨xy, _⟩
    · exact le_of_lt xy
    · exact le_of_eq xy.symm
  refine ⟨l.mergeSort le, ranking, ?_⟩
  have unique' := ranking.unique unique
  have ha' := ranking.mem_iff.mpr ha
  have hb' := ranking.mem_iff.mpr hb
  rcases Nat.lt_trichotomy (place key (l.mergeSort le) (key a)) (place key (l.mergeSort le) (key b)) with before | same | after
  · exact before
  · exact absurd (congrArg key (place_injective unique' ha' hb' same)) different
  · exfalso
    obtain ⟨boundA, atA⟩ := List.getElem?_eq_some_iff.mp (getElem?_place unique' ha')
    obtain ⟨boundB, atB⟩ := List.getElem?_eq_some_iff.mp (getElem?_place unique' hb')
    have ordered := List.pairwise_iff_getElem.mp sorted _ _ boundB boundA after
    rw [atA, atB] at ordered
    simp only [le, decide_eq_true_eq] at ordered
    rcases ordered with less | ⟨_, tie⟩
    · exact absurd above (not_le.mpr less)
    · exact tie.elim (fun same => different same.symm) (fun other => other rfl)

theorem exists_ranking (score : α → β) (l : List α) : ∃ s, IsRanking score l s := by
  refine ⟨l.mergeSort fun x y => decide (score y ≤ score x), List.mergeSort_perm l _, ?_⟩
  have sorted := List.pairwise_mergeSort (fun (x y z : α) (xy : decide (score y ≤ score x) = true) yz =>
    decide_eq_true (le_trans (of_decide_eq_true yz) (of_decide_eq_true xy)))
    (fun x y => by simpa using le_total (score y) (score x)) l
  exact sorted.imp fun xy => of_decide_eq_true xy

theorem strict_of_fixed (unique : (l.map key).Nodup) (fixed : κ → ℕ)
    (same : ∀ s, IsRanking score l s → ∀ a ∈ l, place key s (key a) = fixed (key a)) : Strict score key l := by
  intro a ha b hb different tie
  obtain ⟨s, ranking, before⟩ := exists_before unique ha hb different (le_of_eq tie.symm)
  obtain ⟨s', ranking', after⟩ := exists_before unique hb ha different.symm (le_of_eq tie)
  rw [same s ranking a ha, same s ranking b hb] at before
  rw [same s' ranking' a ha, same s' ranking' b hb] at after
  omega

end IsRanking

namespace Ranking

variable {score : α → β} {key : α → κ} {l l₁ l₂ : List α}

omit [LinearOrder β] [DecidableEq κ] in
theorem countP_eq_of_keys (unique₁ : (l₁.map key).Nodup) (unique₂ : (l₂.map key).Nodup)
    (same : ∀ k, k ∈ (l₁.filter p₁).map key ↔ k ∈ (l₂.filter p₂).map key) : l₁.countP p₁ = l₂.countP p₂ := by
  have nodup₁ := unique₁.sublist (List.filter_sublist (p := p₁).map key)
  have nodup₂ := unique₂.sublist (List.filter_sublist (p := p₂).map key)
  have lengths := ((List.perm_ext_iff_of_nodup nodup₁ nodup₂).mpr same).length_eq
  simpa [List.countP_eq_length_filter] using lengths

def SameOrder (score : α → β) (key : α → κ) (l₁ l₂ : List α) : Prop :=
  ∀ a ∈ l₁, ∀ b ∈ l₁, ∀ a' ∈ l₂, ∀ b' ∈ l₂, key a' = key a → key b' = key b → score a < score b → score a' < score b'

theorem place?_of_mem (member : a ∈ s) : place? key s (key a) = some (place key s (key a)) :=
  if_pos (List.mem_map_of_mem member)

theorem place?_isSome : (place? key s k).isSome ↔ k ∈ s.map key := by
  unfold place?
  split <;> simp_all

omit [DecidableEq κ] in
theorem countP_of_sameOrder (unique₁ : (l₁.map key).Nodup) (unique₂ : (l₂.map key).Nodup)
    (keys : ∀ k, k ∈ l₁.map key ↔ k ∈ l₂.map key) (strict : Strict score key l₁) (order : SameOrder score key l₁ l₂)
    (ha : a ∈ l₁) (ha' : a' ∈ l₂) (same : key a' = key a) :
    (l₁.countP fun b => decide (score a < score b)) = l₂.countP fun b => decide (score a' < score b) := by
  apply countP_eq_of_keys unique₁ unique₂
  intro k
  simp only [List.mem_map, List.mem_filter, decide_eq_true_eq]
  constructor
  · rintro ⟨b, ⟨hb, above⟩, rfl⟩
    obtain ⟨b', hb', sameB⟩ := List.mem_map.mp ((keys (key b)).mp (List.mem_map_of_mem hb))
    exact ⟨b', ⟨hb', order a ha b hb a' ha' b' hb' same sameB above⟩, sameB⟩
  · rintro ⟨b', ⟨hb', above⟩, rfl⟩
    obtain ⟨b, hb, sameB⟩ := List.mem_map.mp ((keys (key b')).mpr (List.mem_map_of_mem hb'))
    refine ⟨b, ⟨hb, ?_⟩, sameB⟩
    have different : key a ≠ key b := by
      intro sameKey
      have equal := List.inj_on_of_nodup_map unique₂ ha' hb' (same.trans (sameKey.trans sameB))
      exact absurd above (by rw [equal]; exact lt_irrefl _)
    rcases lt_or_gt_of_ne (strict a ha b hb different) with below | greater
    · exact below
    · exact absurd (order b hb a ha b' hb' a' ha' sameB.symm same greater) (lt_asymm above)

/-- Two lists are ranked alike, whatever the sorts do with ties, exactly when they have the same keys and order them
alike without ties. -/
theorem place?_eq_iff (score : α → β) (unique₁ : (l₁.map key).Nodup) (unique₂ : (l₂.map key).Nodup) :
    (∀ s₁ s₂, IsRanking score l₁ s₁ → IsRanking score l₂ s₂ → ∀ k, place? key s₁ k = place? key s₂ k) ↔
      (∀ k, k ∈ l₁.map key ↔ k ∈ l₂.map key) ∧ Strict score key l₁ ∧ SameOrder score key l₁ l₂ := by
  constructor
  · intro agree
    obtain ⟨s₁, ranking₁⟩ := IsRanking.exists_ranking score l₁
    obtain ⟨s₂, ranking₂⟩ := IsRanking.exists_ranking score l₂
    have keys : ∀ k, k ∈ l₁.map key ↔ k ∈ l₂.map key := by
      intro k
      rw [← (ranking₁.perm.map key).mem_iff, ← (ranking₂.perm.map key).mem_iff, ← place?_isSome, ← place?_isSome,
        agree s₁ s₂ ranking₁ ranking₂]
    have places : ∀ t₁ t₂, IsRanking score l₁ t₁ → IsRanking score l₂ t₂ → ∀ a ∈ l₁,
        place key t₁ (key a) = place key t₂ (key a) := by
      intro t₁ t₂ first second a ha
      have equal := agree t₁ t₂ first second (key a)
      have listed := (keys (key a)).mp (List.mem_map_of_mem ha)
      rw [place?_of_mem (first.mem_iff.mpr ha), place?, if_pos ((second.perm.map key).mem_iff.mpr listed)] at equal
      exact Option.some.inj equal
    have strict₁ := IsRanking.strict_of_fixed unique₁ (place key s₂) fun t ranking a ha => places t s₂ ranking ranking₂ a ha
    have strict₂ := IsRanking.strict_of_fixed unique₂ (place key s₁) fun t ranking a' ha' => by
      obtain ⟨a, ha, same⟩ := List.mem_map.mp ((keys (key a')).mpr (List.mem_map_of_mem ha'))
      rw [← same]
      exact (places s₁ t ranking₁ ranking a ha).symm
    refine ⟨keys, strict₁, ?_⟩
    intro a ha b hb a' ha' b' hb' sameA sameB below
    have before := ranking₁.place_lt_of_lt unique₁ hb ha below
    rw [places s₁ s₂ ranking₁ ranking₂ a ha, places s₁ s₂ ranking₁ ranking₂ b hb, ← sameA, ← sameB] at before
    have different : key a' ≠ key b' := fun same => by rw [same] at before; exact lt_irrefl _ before
    exact lt_of_le_of_ne (ranking₂.le_of_place_lt unique₂ hb' ha' before) (strict₂ a' ha' b' hb' different)
  · rintro ⟨keys, strict, order⟩ s₁ s₂ ranking₁ ranking₂ k
    by_cases listed : k ∈ l₁.map key
    · obtain ⟨a, ha, rfl⟩ := List.mem_map.mp listed
      obtain ⟨a', ha', same⟩ := List.mem_map.mp ((keys (key a)).mp listed)
      have apart' : ∀ b' ∈ l₂, key b' ≠ key a' → score b' ≠ score a' := by
        intro b' hb' different tie
        obtain ⟨b, hb, sameB⟩ := List.mem_map.mp ((keys (key b')).mpr (List.mem_map_of_mem hb'))
        rcases lt_or_gt_of_ne (strict a ha b hb (by rw [← same, sameB]; exact different.symm)) with below | greater
        · exact absurd tie (ne_of_gt (order a ha b hb a' ha' b' hb' same sameB.symm below))
        · exact absurd tie (ne_of_lt (order b hb a ha b' hb' a' ha' sameB.symm same greater))
      have first := ranking₁.place_eq_countP unique₁ ha fun b hb different => strict b hb a ha different
      have second := ranking₂.place_eq_countP unique₂ ha' apart'
      rw [place?_of_mem (ranking₁.mem_iff.mpr ha), first,
        countP_of_sameOrder unique₁ unique₂ keys strict order ha ha' same, ← second, ← same,
        place?_of_mem (ranking₂.mem_iff.mpr ha')]
    · have absent : k ∉ l₂.map key := fun listed₂ => listed ((keys k).mpr listed₂)
      rw [place?, place?, if_neg (fun found => listed ((ranking₁.perm.map key).mem_iff.mp found)),
        if_neg (fun found => absent ((ranking₂.perm.map key).mem_iff.mp found))]

/-- The entries of a part keep their places in the whole exactly when they are strictly ordered and above all others. -/
theorem place_part_iff (score : α → β) (unique₁ : (l₁.map key).Nodup) (unique : (l.map key).Nodup) (part : l₁ ⊆ l) :
    (∀ s t, IsRanking score l₁ s → IsRanking score l t → ∀ a ∈ l₁, place key s (key a) = place key t (key a)) ↔
      Strict score key l₁ ∧ ∀ a ∈ l₁, ∀ b ∈ l, b ∉ l₁ → score b < score a := by
  constructor
  · intro agree
    obtain ⟨t, rankingT⟩ := IsRanking.exists_ranking score l
    have strict := IsRanking.strict_of_fixed unique₁ (place key t) fun s ranking a ha => agree s t ranking rankingT a ha
    refine ⟨strict, ?_⟩
    intro a ha b hb outside
    by_contra notBelow
    have different : key b ≠ key a := fun same =>
      outside (List.inj_on_of_nodup_map unique hb (part ha) same ▸ ha)
    -- In a ranking with `b` before `a`, the place of `b` is that of an entry of the part.
    obtain ⟨t', ranking', before⟩ := IsRanking.exists_before unique hb (part ha) different (not_lt.mp notBelow)
    obtain ⟨s, rankingS⟩ := IsRanking.exists_ranking score l₁
    have bound : place key t' (key b) < s.length := by
      have inS := place_lt key (rankingS.mem_iff.mpr ha)
      rw [agree s t' rankingS ranking' a ha] at inS
      omega
    have listed : s[place key t' (key b)] ∈ l₁ := rankingS.mem_iff.mp (List.getElem_mem bound)
    have samePlace := agree s t' rankingS ranking' _ listed
    rw [place_getElem (rankingS.unique unique₁) bound] at samePlace
    have equal := place_injective (ranking'.unique unique) (ranking'.mem_iff.mpr hb) (ranking'.mem_iff.mpr (part listed)) samePlace
    rw [← equal] at listed
    exact outside listed
  · rintro ⟨strict, above⟩ s t rankingS rankingT a ha
    have apart : ∀ b ∈ l, key b ≠ key a → score b ≠ score a := by
      intro b hb different
      by_cases inside : b ∈ l₁
      · exact strict b inside a ha different
      · exact ne_of_lt (above a ha b hb inside)
    rw [rankingS.place_eq_countP unique₁ ha fun b hb different => strict b hb a ha different,
      rankingT.place_eq_countP unique (part ha) apart]
    apply countP_eq_of_keys unique₁ unique
    intro k
    simp only [List.mem_map, List.mem_filter, decide_eq_true_eq]
    constructor
    · rintro ⟨b, ⟨hb, greater⟩, rfl⟩
      exact ⟨b, ⟨part hb, greater⟩, rfl⟩
    · rintro ⟨b, ⟨hb, greater⟩, rfl⟩
      have inside : b ∈ l₁ := by
        by_contra outside
        exact lt_asymm greater (above a ha b hb outside)
      exact ⟨b, ⟨inside, greater⟩, rfl⟩

end Ranking

end SchillingCoin
