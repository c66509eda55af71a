import Mathlib.Data.Set.Insert
import Mathlib.Logic.Relation

/-!
Connected components of a family of sets: two elements are linked by a chain of elements of which neighbours lie together in a set of
the family.
-/

universe u

namespace Components

variable {α : Type u}

def Together (family : Set (Set α)) (a b : α) : Prop := ∃ group ∈ family, a ∈ group ∧ b ∈ group

def Linked (family : Set (Set α)) : α → α → Prop := Relation.ReflTransGen (Together family)

structure AreComponents (family parts : Set (Set α)) : Prop where
  nonempty : ∀ part ∈ parts, part.Nonempty
  disjoint : ∀ part ∈ parts, ∀ other ∈ parts, ∀ a, a ∈ part → a ∈ other → part = other
  covers : ∀ a, (∃ part ∈ parts, a ∈ part) ↔ ∃ group ∈ family, a ∈ group
  linked : ∀ part ∈ parts, ∀ a ∈ part, ∀ b, b ∈ part ↔ Linked family a b

theorem Together.symm (together : Together family a b) : Together family b a := by
  obtain ⟨group, member, first, second⟩ := together
  exact ⟨group, member, second, first⟩

theorem Linked.symm (linked : Linked family a b) : Linked family b a := by
  induction linked with
  | refl => exact .refl
  | tail _ last ih => exact .head last.symm ih

theorem Linked.mono (sub : family ⊆ more) (linked : Linked family a b) : Linked more a b := by
  induction linked with
  | refl => exact .refl
  | tail _ last ih =>
    obtain ⟨group, member, both⟩ := last
    exact ih.tail ⟨group, sub member, both⟩

theorem areComponents_empty : AreComponents (∅ : Set (Set α)) ∅ where
  nonempty _ member := member.elim
  disjoint _ member := member.elim
  covers a := by simp
  linked _ member := member.elim

variable {family parts parts' : Set (Set α)} {group merged : Set α}

theorem mem_of_linked (closed : ∀ a ∈ merged, ∀ b, Together family a b → b ∈ merged) (member : a ∈ merged)
    (linked : Linked family a b) : b ∈ merged := by
  induction linked with
  | refl => exact member
  | tail _ last ih => exact closed _ ih _ last

section Merge

variable (before : AreComponents family parts) (some_ : group.Nonempty)
  (isMerged : ∀ a, a ∈ merged ↔ a ∈ group ∨ ∃ part ∈ parts, (∃ b ∈ group, b ∈ part) ∧ a ∈ part)

include before isMerged in
theorem merged_linked (member : a ∈ merged) (inGroup : z ∈ group) : Linked (insert group family) a z := by
  rcases (isMerged a).mp member with direct | ⟨part, isPart, ⟨y, inGroup', inPart⟩, member⟩
  · exact .single ⟨group, Set.mem_insert _ _, direct, inGroup⟩
  · have first : Linked (insert group family) a y := ((before.linked part isPart a member y).mp inPart).mono (Set.subset_insert _ _)
    exact first.tail ⟨group, Set.mem_insert _ _, inGroup', inGroup⟩

include before isMerged in
theorem merged_closed : ∀ a ∈ merged, ∀ b, Together (insert group family) a b → b ∈ merged := by
  intro a member b ⟨other, isOther, first, second⟩
  apply (isMerged b).mpr
  rcases Set.mem_insert_iff.mp isOther with rfl | isOld
  · exact .inl second
  · obtain ⟨part, isPart, inPart⟩ := (before.covers a).mpr ⟨other, isOld, first⟩
    have together : b ∈ part := (before.linked part isPart a inPart b).mpr (.single ⟨other, isOld, first, second⟩)
    rcases (isMerged a).mp member with direct | ⟨hit, isHit, meets, inHit⟩
    · exact .inr ⟨part, isPart, ⟨a, direct, inPart⟩, together⟩
    · obtain rfl := before.disjoint part isPart hit isHit a inPart inHit
      exact .inr ⟨part, isPart, meets, together⟩

include before in
theorem apart_closed {part : Set α} (isPart : part ∈ parts) (apart : ¬∃ b ∈ group, b ∈ part) :
    ∀ a ∈ part, ∀ b, Together (insert group family) a b → b ∈ part := by
  intro a member b ⟨other, isOther, first, second⟩
  rcases Set.mem_insert_iff.mp isOther with rfl | isOld
  · exact absurd ⟨a, first, member⟩ apart
  · exact (before.linked part isPart a member b).mpr (.single ⟨other, isOld, first, second⟩)

include before some_ isMerged in
theorem AreComponents.merge (sets : ∀ part, part ∈ parts' ↔ part = merged ∨ part ∈ parts ∧ ¬∃ b ∈ group, b ∈ part) :
    AreComponents (insert group family) parts' where
  nonempty part member := by
    rcases (sets part).mp member with rfl | ⟨isPart, _⟩
    · obtain ⟨z, inGroup⟩ := some_
      exact ⟨z, (isMerged z).mpr (.inl inGroup)⟩
    · exact before.nonempty part isPart
  disjoint part member other member' a inPart inOther := by
    -- A part that is left out of the merge has no element of it.
    have outside : ∀ part ∈ parts, (¬∃ b ∈ group, b ∈ part) → a ∈ part → a ∉ merged := by
      intro part isPart apart inPart inMerged
      rcases (isMerged a).mp inMerged with direct | ⟨hit, isHit, meets, inHit⟩
      · exact apart ⟨a, direct, inPart⟩
      · obtain rfl := before.disjoint part isPart hit isHit a inPart inHit
        exact apart meets
    rcases (sets part).mp member with rfl | ⟨isPart, apart⟩
    · rcases (sets other).mp member' with rfl | ⟨isOther, apart⟩
      · rfl
      · exact absurd inPart (outside other isOther apart inOther)
    · rcases (sets other).mp member' with rfl | ⟨isOther, _⟩
      · exact absurd inOther (outside part isPart apart inPart)
      · exact before.disjoint part isPart other isOther a inPart inOther
  covers a := by
    constructor
    · intro ⟨part, member, inPart⟩
      rcases (sets part).mp member with rfl | ⟨isPart, _⟩
      · rcases (isMerged a).mp inPart with direct | ⟨hit, isHit, _, inHit⟩
        · exact ⟨group, Set.mem_insert _ _, direct⟩
        · obtain ⟨old, isOld, inOld⟩ := (before.covers a).mp ⟨hit, isHit, inHit⟩
          exact ⟨old, Set.mem_insert_of_mem _ isOld, inOld⟩
      · obtain ⟨old, isOld, inOld⟩ := (before.covers a).mp ⟨part, isPart, inPart⟩
        exact ⟨old, Set.mem_insert_of_mem _ isOld, inOld⟩
    · intro ⟨other, isOther, inOther⟩
      rcases Set.mem_insert_iff.mp isOther with rfl | isOld
      · exact ⟨merged, (sets merged).mpr (.inl rfl), (isMerged a).mpr (.inl inOther)⟩
      · obtain ⟨part, isPart, inPart⟩ := (before.covers a).mpr ⟨other, isOld, inOther⟩
        by_cases meets : ∃ b ∈ group, b ∈ part
        · exact ⟨merged, (sets merged).mpr (.inl rfl), (isMerged a).mpr (.inr ⟨part, isPart, meets, inPart⟩)⟩
        · exact ⟨part, (sets part).mpr (.inr ⟨isPart, meets⟩), inPart⟩
  linked part member a inPart b := by
    rcases (sets part).mp member with rfl | ⟨isPart, apart⟩
    · constructor
      · intro inPart'
        obtain ⟨z, inGroup⟩ := some_
        exact (merged_linked before isMerged inPart inGroup).trans (merged_linked before isMerged inPart' inGroup).symm
      · exact mem_of_linked (merged_closed before isMerged) inPart
    · constructor
      · intro inPart'
        exact ((before.linked part isPart a inPart b).mp inPart').mono (Set.subset_insert _ _)
      · exact mem_of_linked (apart_closed before isPart apart) inPart

end Merge

end Components
