import SchillingCoin.Lib.OrderedStore

/-!
The content of a LevelDB database, as `leveldbwrapper.h` and the classes of `txdb.h` use it: byte strings under byte strings, in bytewise
order, with the kind of a record in the first byte of its key.
-/

namespace SchillingCoin

structure Slice where
  data : List UInt8
  deriving DecidableEq, Repr

namespace Slice

def rank (slice : Slice) : List Nat := slice.data.map UInt8.toNat

theorem rank_injective : Function.Injective rank := by
  intro a b same
  obtain ⟨a⟩ := a
  obtain ⟨b⟩ := b
  exact congrArg Slice.mk (List.map_injective_iff.mpr (fun _ _ => UInt8.toNat_inj.mp) same)

instance : LinearOrder Slice := LinearOrder.lift' rank rank_injective

def HasType (chType : UInt8) (slKey : Slice) : Prop := slKey.data.head? = some chType

instance (chType : UInt8) (slKey : Slice) : Decidable (slKey.HasType chType) := inferInstanceAs (Decidable (_ = _))

theorem hasType_cons (chType : UInt8) (bytes : List UInt8) : HasType chType ⟨chType :: bytes⟩ := rfl

theorem hasType_between {a : Slice} (least : ⟨chType :: first⟩ ≤ a) (less : a < b) (hasType : b.HasType chType) :
    a.HasType chType := by
  obtain ⟨a⟩ := a
  obtain ⟨b⟩ := b
  obtain ⟨rest, rfl⟩ := List.head?_eq_some_iff.mp hasType
  have less_ : a.map UInt8.toNat < (chType :: rest).map UInt8.toNat := less
  have least_ : ¬a.map UInt8.toNat < (chType :: first).map UInt8.toNat := not_lt.mpr least
  cases a with
  | nil => exact absurd (List.nil_lt_cons _ _) least_
  | cons x xs =>
    simp only [List.map_cons, List.cons_lt_cons_iff] at less_ least_
    have same : x = chType := by
      apply UInt8.toNat_inj.mp
      omega
    rw [same]
    rfl

theorem zeros_le (chType : UInt8) (bytes : List UInt8) :
    (⟨chType :: List.replicate bytes.length 0⟩ : Slice) ≤ ⟨chType :: bytes⟩ := by
  have zeros : ¬bytes.map UInt8.toNat < (List.replicate bytes.length 0).map UInt8.toNat := by
    induction bytes with
    | nil => exact List.not_lt_nil _
    | cons b bytes ih =>
      rw [List.length_cons, List.replicate_succ, List.map_cons, List.map_cons, List.cons_lt_cons_iff]
      intro less
      rcases less with small | ⟨_, less⟩
      · exact absurd small (Nat.not_lt_zero _)
      · exact ih less
  apply not_lt.mp
  intro less
  have less_ : (chType :: bytes).map UInt8.toNat < (chType :: List.replicate bytes.length 0).map UInt8.toNat := less
  rw [List.map_cons, List.map_cons, List.cons_lt_cons_iff] at less_
  rcases less_ with small | ⟨_, less_⟩
  · exact absurd small (Nat.lt_irrefl _)
  · exact zeros less_

theorem mem_visited {db : OrderedStore Slice Slice} :
    (r ∈ (db.seek ⟨type :: zero⟩).takeWhile fun r => decide (r.1.HasType type)) ↔
      r ∈ db.entries ∧ ⟨type :: zero⟩ ≤ r.1 ∧ r.1.HasType type := by
  have passed := OrderedStore.mem_takeWhile_seek (s := db) (k := ⟨type :: zero⟩) (e := r)
    fun a b low less typed => decide_eq_true (hasType_between low less (of_decide_eq_true typed))
  rw [passed, decide_eq_true_iff]

end Slice

end SchillingCoin
