import Mathlib.Data.Finset.Basic
import SchillingCoin.Lib.StdMap

/-!
Things that wait for others. A waiter names what it needs, and every need points back to the positions of its waiters.
-/

universe u v

structure Waiter (K : Type u) (A : Type v) where
  item : A
  needs : Finset K

structure Dependers (K : Type u) (A : Type v) where
  waiters : List (Waiter K A) := []
  pointers : StdMap K (List Nat) := ∅
  ready : List A := []

namespace Dependers

variable {K : Type u} {A : Type v} [DecidableEq K]

def dependersOf (d : Dependers K A) (k : K) : List Nat := (d.pointers.lookup k).getD []

def need (d : Dependers K A) (i : Nat) (k : K) : Dependers K A where
  waiters := d.waiters.modify i fun w => { w with needs := insert k w.needs }
  pointers := d.pointers.insert k (d.dependersOf k ++ [i])
  ready := d.ready

/-- What a need that is done does to one of the positions it points to. -/
def wakeOne (k : K) (d : Dependers K A) (i : Nat) : Dependers K A :=
  match d.waiters[i]? with
  | none => d
  | some w =>
    if w.needs = ∅ then d
    else
      { waiters := d.waiters.set i { w with needs := w.needs.erase k }
        pointers := d.pointers
        ready := if w.needs.erase k = ∅ then d.ready ++ [w.item] else d.ready }

def wake (d : Dependers K A) (k : K) : Dependers K A := (d.dependersOf k).foldl (wakeOne k) d

def pendingOf (waiters : List (Waiter K A)) : List A := (waiters.filter fun w => decide (w.needs ≠ ∅)).map Waiter.item

def pending (d : Dependers K A) : List A := pendingOf d.waiters

/-- What is needed points back to those who need it. -/
def Sound (d : Dependers K A) : Prop := ∀ i w, d.waiters[i]? = some w → ∀ k ∈ w.needs, i ∈ d.dependersOf k

@[simp] theorem pendingOf_append (waiters more : List (Waiter K A)) : pendingOf (waiters ++ more) = pendingOf waiters ++ pendingOf more := by
  simp [pendingOf]

theorem pendingOf_cons (w : Waiter K A) (rest : List (Waiter K A)) :
    pendingOf (w :: rest) = (if w.needs = ∅ then [] else [w.item]) ++ pendingOf rest := by
  unfold pendingOf
  by_cases none : w.needs = ∅ <;> simp [none]

variable {d : Dependers K A} {w : Waiter K A}

theorem mem_pending : a ∈ d.pending ↔ ∃ w ∈ d.waiters, w.needs ≠ ∅ ∧ w.item = a := by
  simp [pending, pendingOf, and_assoc]

theorem wakeOne_perm (k : K) (d : Dependers K A) (i : Nat) :
    ((d.wakeOne k i).ready ++ (d.wakeOne k i).pending).Perm (d.ready ++ d.pending) := by
  unfold wakeOne
  cases there : d.waiters[i]? with
  | none => exact List.Perm.refl _
  | some w =>
    by_cases none : w.needs = ∅
    · dsimp only
      rw [if_pos none]
    · obtain ⟨inside, rfl⟩ := List.getElem?_eq_some_iff.mp there
      dsimp only
      rw [if_neg none]
      have split : d.waiters = d.waiters.take i ++ d.waiters[i] :: d.waiters.drop (i + 1) := by
        rw [← List.drop_eq_getElem_cons inside, List.take_append_drop]
      have changed : d.waiters.set i { d.waiters[i] with needs := d.waiters[i].needs.erase k } =
          d.waiters.take i ++ { d.waiters[i] with needs := d.waiters[i].needs.erase k } :: d.waiters.drop (i + 1) :=
        List.set_eq_take_append_cons_drop .. |>.trans (if_pos inside)
      have before : d.pending = pendingOf (d.waiters.take i) ++ d.waiters[i].item :: pendingOf (d.waiters.drop (i + 1)) := by
        unfold pending
        conv_lhs => rw [split]
        rw [pendingOf_append, pendingOf_cons, if_neg none]
        rfl
      rw [before, pending, changed, pendingOf_append, pendingOf_cons]
      by_cases last : d.waiters[i].needs.erase k = ∅
      · rw [if_pos last, if_pos last, List.nil_append, List.append_assoc, List.singleton_append]
        apply List.Perm.append_left
        exact List.perm_middle.symm
      · rw [if_neg last, if_neg last]
        exact List.Perm.refl _

theorem wake_perm (d : Dependers K A) (k : K) : ((d.wake k).ready ++ (d.wake k).pending).Perm (d.ready ++ d.pending) := by
  unfold wake
  generalize d.dependersOf k = positions
  induction positions generalizing d with
  | nil => exact List.Perm.refl _
  | cons i rest ih => exact (ih _).trans (wakeOne_perm k d i)

theorem dependersOf_need (d : Dependers K A) (i : Nat) (k k' : K) :
    (d.need i k).dependersOf k' = if k' = k then d.dependersOf k ++ [i] else d.dependersOf k' := by
  unfold need dependersOf
  rw [StdMap.lookup_insert_ite]
  split <;> rfl

theorem need_sound (sound : d.Sound) (i : Nat) (k : K) : (d.need i k).Sound := by
  intro j w there k' isNeed
  have found : (d.waiters.modify i fun w => { w with needs := insert k w.needs })[j]? = some w := there
  rw [List.getElem?_modify] at found
  obtain ⟨start, atStart, rfl⟩ := Option.map_eq_some_iff.mp found
  rw [dependersOf_need]
  by_cases here : i = j
  · rw [if_pos here] at isNeed
    rcases Finset.mem_insert.mp isNeed with rfl | old
    · rw [if_pos rfl, here]
      exact List.mem_append_right _ (List.mem_singleton_self j)
    · have pointed := sound j start atStart k' old
      split
      · next same => exact List.mem_append_left _ (same ▸ pointed)
      · exact pointed
  · rw [if_neg here] at isNeed
    have pointed := sound j start atStart k' isNeed
    split
    · next same => exact List.mem_append_left _ (same ▸ pointed)
    · exact pointed

theorem push_sound (sound : d.Sound) (item : A) :
    ({ d with waiters := d.waiters ++ [{ item, needs := ∅ }] } : Dependers K A).Sound := by
  intro j w there k isNeed
  dsimp only at there
  rw [List.getElem?_append] at there
  split at there
  · exact sound j w there k isNeed
  · obtain rfl := List.mem_singleton.mp (List.mem_of_getElem? there)
    exact absurd isNeed (Finset.notMem_empty k)

theorem need_last (d : Dependers K A) (last : d.waiters = before ++ [w]) (k : K) :
    (d.need before.length k).waiters = before ++ [{ w with needs := insert k w.needs }] := by
  unfold need
  rw [last]
  clear last
  induction before with
  | nil => rfl
  | cons first rest ih => exact congrArg (first :: ·) ih

structure Shrinks (d d' : Dependers K A) : Prop where
  pointers : d'.pointers = d.pointers
  waiters : ∀ (i : Nat) (w' : Waiter K A), d'.waiters[i]? = some w' → ∃ w : Waiter K A, d.waiters[i]? = some w ∧ w'.item = w.item ∧ w'.needs ⊆ w.needs

omit [DecidableEq K] in
theorem Shrinks.refl (d : Dependers K A) : d.Shrinks d := ⟨rfl, fun _ w there => ⟨w, there, rfl, Finset.Subset.refl _⟩⟩

omit [DecidableEq K] in
theorem Shrinks.trans {a b c : Dependers K A} (first : a.Shrinks b) (second : b.Shrinks c) : a.Shrinks c := by
  refine ⟨second.pointers.trans first.pointers, fun i w there => ?_⟩
  obtain ⟨mid, atMid, item, fewer⟩ := second.waiters i w there
  obtain ⟨start, atStart, item', fewer'⟩ := first.waiters i mid atMid
  exact ⟨start, atStart, item.trans item', fewer.trans fewer'⟩

theorem Shrinks.sound (shrinks : d.Shrinks d') (sound : d.Sound) : d'.Sound := by
  intro i w' there k isNeed
  obtain ⟨w, atStart, _, fewer⟩ := shrinks.waiters i w' there
  have pointed := sound i w atStart k (fewer isNeed)
  unfold dependersOf at *
  rwa [shrinks.pointers]

theorem wakeOne_shrinks (k : K) (d : Dependers K A) (i : Nat) : d.Shrinks (d.wakeOne k i) := by
  unfold wakeOne
  cases there : d.waiters[i]? with
  | none => exact Shrinks.refl d
  | some w =>
    dsimp only
    split
    · exact Shrinks.refl d
    · refine ⟨rfl, fun j w' found => ?_⟩
      dsimp only at found
      rw [List.getElem?_set] at found
      split at found
      · next same =>
        subst same
        split at found
        · obtain rfl := Option.some.inj found
          exact ⟨w, there, rfl, Finset.erase_subset _ _⟩
        · cases found
      · exact ⟨w', found, rfl, Finset.Subset.refl _⟩

theorem wakeOne_gone (k : K) (d : Dependers K A) (there : (d.wakeOne k i).waiters[i]? = some w) : k ∉ w.needs := by
  unfold wakeOne at there
  cases before : d.waiters[i]? with
  | none =>
    rw [before] at there
    dsimp only at there
    rw [before] at there
    cases there
  | some start =>
    rw [before] at there
    dsimp only at there
    split at there
    · next none =>
      rw [before] at there
      obtain rfl := Option.some.inj there
      rw [none]
      exact Finset.notMem_empty k
    · have inside := (List.getElem?_eq_some_iff.mp before).1
      rw [List.getElem?_set_self inside] at there
      obtain rfl := Option.some.inj there
      exact Finset.notMem_erase k _

theorem wake_shrinks (d : Dependers K A) (k : K) : d.Shrinks (d.wake k) := by
  unfold wake
  generalize d.dependersOf k = positions
  induction positions generalizing d with
  | nil => exact Shrinks.refl d
  | cons i rest ih => exact (wakeOne_shrinks k d i).trans (ih _)

theorem wake_gone (sound : d.Sound) (k : K) (member : w ∈ (d.wake k).waiters) : k ∉ w.needs := by
  have all : ∀ (positions : List Nat) (d : Dependers K A), ∀ i ∈ positions, ∀ w,
      (positions.foldl (wakeOne k) d).waiters[i]? = some w → k ∉ w.needs := by
    intro positions
    induction positions with
    | nil => intro d i member; exact absurd member List.not_mem_nil
    | cons j rest ih =>
      intro d i member w there
      rcases List.mem_cons.mp member with rfl | later
      · have shrinks : (wakeOne k d i).Shrinks (rest.foldl (wakeOne k) (wakeOne k d i)) := by
          clear ih member there
          generalize wakeOne k d i = start
          induction rest generalizing start with
          | nil => exact Shrinks.refl start
          | cons j rest ih => exact (wakeOne_shrinks k start j).trans (ih _)
        obtain ⟨start, atStart, _, fewer⟩ := shrinks.waiters i w there
        exact fun isNeed => wakeOne_gone k d atStart (fewer isNeed)
      · exact ih (wakeOne k d j) i later w there
  intro isNeed
  obtain ⟨i, inside, rfl⟩ := List.getElem_of_mem member
  have there := List.getElem?_eq_getElem inside
  obtain ⟨start, atStart, _, fewer⟩ := (wake_shrinks d k).waiters i _ there
  exact all (d.dependersOf k) d i (sound i start atStart k (fewer isNeed)) _ there isNeed

end Dependers
