import Mathlib.Algebra.Order.Group.Unbundled.Int
import Mathlib.Algebra.Order.Ring.Abs
import Mathlib.Data.Finset.Card
import SchillingCoin.Lib.Median
import SchillingCoin.Lib.Run
import SchillingCoin.Primitives.Transaction

/-!
The clock offset that is taken from other nodes, after `timedata.h` and `timedata.cpp`. The least of the 64-bit numbers has no absolute value.
-/

namespace SchillingCoin

def BITCOIN_TIMEDATA_MAX_SAMPLES : Nat := 200

def abs64 (n : Int) : Int := if n ≥ 0 then n else int64 (-n)

def INT64_MIN : Int := -2 ^ 63

abbrev OffsetSample := { n : Int // INT64_MIN ≤ n ∧ n < 2 ^ 63 }

structure CMedianFilter where
  vValues : List Int
  vSorted : List Int
  nSize : Nat
  deriving DecidableEq, Repr

namespace CMedianFilter

def make (size : Nat) (initialValue : Int) : CMedianFilter := { vValues := [initialValue], vSorted := [initialValue], nSize := size }

variable (f : CMedianFilter)

/-- The values with one more, and without the oldest one of a full filter. -/
def next (value : Int) : List Int := (if f.vValues.length = f.nSize then f.vValues.drop 1 else f.vValues) ++ [value]

def input (value : Int) : CMedianFilter :=
  { f with vValues := f.next value, vSorted := (f.next value).insertionSort (· ≤ ·) }

def median : Int :=
  let size := f.vSorted.length
  if size % 2 = 1 then f.vSorted.getD (size / 2) 0
  else (int64 (f.vSorted.getD (size / 2 - 1) 0 + f.vSorted.getD (size / 2) 0)).tdiv 2

end CMedianFilter

variable {Addr : Type} [DecidableEq Addr]

structure TimeData (Addr : Type) where
  setKnown : Finset Addr := ∅
  vTimeOffsets : CMedianFilter := CMedianFilter.make BITCOIN_TIMEDATA_MAX_SAMPLES 0
  nTimeOffset : Int := 0
  strMiscWarning : String := ""

namespace TimeData

def clockWarning : String := "Warning: Please check that your computer's date and time are correct! " ++
  "If your clock is wrong Schilling Coin will not work properly."

variable (nOffsetLimit : Int) (fRegTest : Bool)

/-- The last part of `AddTimeData`, for an odd number of samples. -/
def updateOffset (t : TimeData Addr) : TimeData Addr :=
  let nMedian := t.vTimeOffsets.median
  if abs64 nMedian < nOffsetLimit then { t with nTimeOffset := nMedian, strMiscWarning := "" }
  else { t with nTimeOffset := (if nMedian > 0 then 1 else -1) * nOffsetLimit, strMiscWarning := clockWarning }

def addTimeData (nOffsetLimit : Int) (t : TimeData Addr) (call : Addr × OffsetSample) : TimeData Addr :=
  if t.setKnown.card = BITCOIN_TIMEDATA_MAX_SAMPLES then t
  else if !fRegTest && decide (call.1 ∈ t.setKnown) then t
  else
    let setKnown := if fRegTest then t.setKnown else insert call.1 t.setKnown
    let vTimeOffsets := t.vTimeOffsets.input call.2
    let t := { t with setKnown, vTimeOffsets }
    if vTimeOffsets.vValues.length ≥ 5 ∧ vTimeOffsets.vValues.length % 2 = 1 then updateOffset nOffsetLimit t else t

def takes (t : TimeData Addr) (ip : Addr) : Bool :=
  decide (t.setKnown.card ≠ BITCOIN_TIMEDATA_MAX_SAMPLES) && (fRegTest || decide (ip ∉ t.setKnown))

def sampled (fRegTest : Bool) (nOffsetLimit : Int) : TimeData Addr → List (Addr × OffsetSample) → List (Addr × OffsetSample)
  | _, [] => []
  | t, call :: calls =>
    let rest := sampled fRegTest nOffsetLimit (addTimeData fRegTest nOffsetLimit t call) calls
    if takes fRegTest t call.1 then call :: rest else rest

def Outvoted (values : List Int) : Prop := values.length ≥ 5 ∧ values.length % 2 = 1 ∧ values.length / 2 < values.count INT64_MIN

def Meets (t : TimeData Addr) (call : Addr × OffsetSample) : Prop :=
  takes fRegTest t call.1 = true → ¬Outvoted (t.vTimeOffsets.next call.2)

instance (values : List Int) : Decidable (Outvoted values) := inferInstanceAs (Decidable (_ ∧ _))

instance (fRegTest : Bool) (t : TimeData Addr) (call : Addr × OffsetSample) : Decidable (Meets fRegTest t call) :=
  inferInstanceAs (Decidable (_ → _))

def Bounded (t : TimeData Addr) : Prop := |t.nTimeOffset| ≤ nOffsetLimit

theorem abs64_of_other (range : INT64_MIN ≤ n ∧ n < 2 ^ 63) (other : n ≠ INT64_MIN) : abs64 n = |n| := by
  unfold abs64
  unfold INT64_MIN at range other
  split
  · next nonneg => rw [abs_of_nonneg nonneg]
  · next negative =>
    rw [abs_of_neg (by omega), int64]
    exact Int.bmod_eq_of_le (by omega) (by omega)

theorem abs64_least : abs64 INT64_MIN = INT64_MIN := by decide

variable {fRegTest : Bool} {nOffsetLimit : Int} {t : TimeData Addr}

theorem addTimeData_untaken (untaken : takes fRegTest t call.1 = false) : addTimeData fRegTest nOffsetLimit t call = t := by
  unfold addTimeData
  unfold takes at untaken
  by_cases full : t.setKnown.card = BITCOIN_TIMEDATA_MAX_SAMPLES
  · rw [if_pos full]
  · rw [decide_eq_true full, Bool.true_and, Bool.or_eq_false_iff, decide_eq_false_iff_not, not_not] at untaken
    rw [if_neg full, untaken.1, decide_eq_true untaken.2]
    rfl

theorem addTimeData_taken (taken : takes fRegTest t call.1 = true) :
    let t' : TimeData Addr := { t with setKnown := if fRegTest then t.setKnown else insert call.1 t.setKnown
                                       vTimeOffsets := t.vTimeOffsets.input call.2 }
    addTimeData fRegTest nOffsetLimit t call =
      if (t.vTimeOffsets.next call.2).length ≥ 5 ∧ (t.vTimeOffsets.next call.2).length % 2 = 1 then updateOffset nOffsetLimit t' else t' := by
  unfold takes at taken
  rw [Bool.and_eq_true, decide_eq_true_iff, Bool.or_eq_true, decide_eq_true_iff] at taken
  have unknown : (!fRegTest && decide (call.1 ∈ t.setKnown)) = false := by
    rw [Bool.and_eq_false_iff, Bool.not_eq_false', decide_eq_false_iff_not]
    exact taken.2
  unfold addTimeData
  rw [if_neg taken.1, unknown]
  rfl

def InRange (t : TimeData Addr) : Prop := ∀ n ∈ t.vTimeOffsets.vValues, INT64_MIN ≤ n ∧ n < 2 ^ 63

omit [DecidableEq Addr] in
theorem next_range (range : t.InRange) (sample : OffsetSample) : ∀ n ∈ t.vTimeOffsets.next sample, INT64_MIN ≤ n ∧ n < 2 ^ 63 := by
  intro n member
  unfold CMedianFilter.next at member
  rcases List.mem_append.mp member with old | new
  · split at old
    · exact range n (List.mem_of_mem_drop old)
    · exact range n old
  · rw [List.mem_singleton.mp new]
    exact sample.2

omit [DecidableEq Addr] in
theorem vTimeOffsets_updateOffset (nOffsetLimit : Int) (t : TimeData Addr) : (updateOffset nOffsetLimit t).vTimeOffsets = t.vTimeOffsets := by
  unfold updateOffset
  dsimp only
  split
  · rfl
  · rfl

theorem addTimeData_range (range : t.InRange) (call : Addr × OffsetSample) : (addTimeData fRegTest nOffsetLimit t call).InRange := by
  cases taken : takes fRegTest t call.1 with
  | false =>
    rw [addTimeData_untaken taken]
    exact range
  | true =>
    have after := next_range range call.2
    rw [addTimeData_taken taken]
    unfold InRange
    split
    · rw [vTimeOffsets_updateOffset]
      exact after
    · exact after

theorem median_least_iff (range : ∀ n ∈ values, INT64_MIN ≤ n) (some_ : 0 < values.length) :
    Median.median values 0 = INT64_MIN ↔ values.length / 2 < values.count INT64_MIN := by
  have counted : values.countP (· ≤ INT64_MIN) = values.count INT64_MIN := by
    unfold List.count
    apply List.countP_congr
    intro n member
    have low := range n member
    rw [decide_eq_true_iff, beq_iff_eq]
    omega
  have inside : INT64_MIN ≤ Median.median values 0 := by
    have perm := List.perm_insertionSort (· ≤ ·) values
    apply range
    apply perm.mem_iff.mp
    unfold Median.median
    rw [List.getD_eq_getElem _ _ (by rw [perm.length_eq]; omega)]
    exact List.getElem_mem _
  rw [← counted, ← Median.median_le_iff some_]
  constructor
  · intro same
    exact le_of_eq same
  · intro low
    exact le_antisymm low inside

omit [DecidableEq Addr] in
theorem bounded_updateOffset (limit : 0 < nOffsetLimit ∧ nOffsetLimit < 2 ^ 31)
    (range : INT64_MIN ≤ t.vTimeOffsets.median ∧ t.vTimeOffsets.median < 2 ^ 63) :
    Bounded nOffsetLimit (updateOffset nOffsetLimit t) ↔ t.vTimeOffsets.median ≠ INT64_MIN := by
  unfold updateOffset Bounded
  dsimp only
  by_cases least : t.vTimeOffsets.median = INT64_MIN
  · rw [least, abs64_least, if_pos (by unfold INT64_MIN; omega)]
    have size : |INT64_MIN| = 2 ^ 63 := by decide
    rw [size]
    constructor
    · intro small
      omega
    · intro other
      exact absurd rfl other
  · rw [abs64_of_other range least]
    constructor
    · exact fun _ => least
    · intro _
      split
      · next small => exact le_of_lt small
      · rw [abs_mul, abs_of_pos limit.1]
        split
        · rw [abs_one, one_mul]
        · rw [abs_neg, abs_one, one_mul]

theorem median_input {f : CMedianFilter} {value : Int} (odd : (f.next value).length % 2 = 1) :
    (f.input value).median = Median.median (f.next value) 0 := by
  have length : ((f.next value).insertionSort (· ≤ ·)).length = (f.next value).length := (List.perm_insertionSort _ _).length_eq
  unfold CMedianFilter.median CMedianFilter.input Median.median
  dsimp only
  rw [length, if_pos odd]

theorem bounded_addTimeData (limit : 0 < nOffsetLimit ∧ nOffsetLimit < 2 ^ 31) (range : t.InRange) (bounded : Bounded nOffsetLimit t)
    (call : Addr × OffsetSample) : Bounded nOffsetLimit (addTimeData fRegTest nOffsetLimit t call) ↔ Meets fRegTest t call := by
  unfold Meets
  cases taken : takes fRegTest t call.1 with
  | false =>
    rw [addTimeData_untaken taken]
    exact ⟨fun _ => nofun, fun _ => bounded⟩
  | true =>
    rw [addTimeData_taken taken]
    by_cases updated : (t.vTimeOffsets.next call.2).length ≥ 5 ∧ (t.vTimeOffsets.next call.2).length % 2 = 1
    · have values := next_range range call.2
      have least := median_least_iff (fun n member => (values n member).1) (by omega)
      have inside : INT64_MIN ≤ Median.median (t.vTimeOffsets.next call.2) 0 ∧ Median.median (t.vTimeOffsets.next call.2) 0 < 2 ^ 63 := by
        have perm := List.perm_insertionSort (· ≤ ·) (t.vTimeOffsets.next call.2)
        apply values
        apply perm.mem_iff.mp
        unfold Median.median
        rw [List.getD_eq_getElem _ _ (by rw [perm.length_eq]; omega)]
        exact List.getElem_mem _
      have median := @median_input t.vTimeOffsets call.2 updated.2
      rw [if_pos updated, bounded_updateOffset limit (by dsimp only; rwa [median])]
      dsimp only
      rw [median, Ne, least]
      unfold Outvoted
      constructor
      · intro minority _ outvoted
        exact minority outvoted.2.2
      · intro minority majority
        exact minority rfl ⟨updated.1, updated.2, majority⟩
    · rw [if_neg updated]
      unfold Outvoted
      constructor
      · intro _ _ outvoted
        exact updated ⟨outvoted.1, outvoted.2.1⟩
      · exact fun _ => bounded

omit [DecidableEq Addr] in
theorem setKnown_updateOffset (nOffsetLimit : Int) (t : TimeData Addr) : (updateOffset nOffsetLimit t).setKnown = t.setKnown := by
  unfold updateOffset
  dsimp only
  split
  · rfl
  · rfl

theorem sampled_once (calls : List (Addr × OffsetSample)) (t : TimeData Addr) :
    ((sampled false nOffsetLimit t calls).map Prod.fst).Nodup ∧ ∀ call ∈ sampled false nOffsetLimit t calls, call.1 ∉ t.setKnown := by
  induction calls generalizing t with
  | nil => exact ⟨List.nodup_nil, fun _ => nofun⟩
  | cons call calls ih =>
    unfold sampled
    dsimp only
    cases taken : takes false t call.1 with
    | false =>
      rw [addTimeData_untaken taken, if_neg nofun]
      exact ih t
    | true =>
      have known : (addTimeData false nOffsetLimit t call).setKnown = insert call.1 t.setKnown := by
        rw [addTimeData_taken taken]
        split
        · rw [setKnown_updateOffset]
          rfl
        · rfl
      obtain ⟨nodup, apart⟩ := ih (addTimeData false nOffsetLimit t call)
      rw [known] at apart
      rw [if_pos rfl, List.map_cons, List.nodup_cons]
      refine ⟨⟨fun again => ?_, nodup⟩, fun call' member => ?_⟩
      · obtain ⟨call', later, same⟩ := List.mem_map.mp again
        exact apart call' later (same ▸ Finset.mem_insert_self _ _)
      · rcases List.mem_cons.mp member with rfl | later
        · unfold takes at taken
          rw [Bool.and_eq_true, Bool.false_or, decide_eq_true_iff, decide_eq_true_iff] at taken
          exact taken.2
        · exact fun there => apart call' later (Finset.mem_insert_of_mem there)

/-- The offset stays within the limit after every call exactly when no call leaves a majority of least numbers; an address is heard once at
most. -/
theorem offset_bounded_iff (fRegTest : Bool) {nOffsetLimit : Int} (limit : 0 < nOffsetLimit ∧ nOffsetLimit < 2 ^ 31)
    (calls : List (Addr × OffsetSample)) :
    ((∀ before, before <+: calls → |(before.foldl (addTimeData fRegTest nOffsetLimit) {}).nTimeOffset| ≤ nOffsetLimit) ∧
        (fRegTest = false → ((sampled fRegTest nOffsetLimit {} calls).map Prod.fst).Nodup)) ↔
      ∀ before call, before ++ [call] <+: calls → Meets fRegTest (before.foldl (addTimeData fRegTest nOffsetLimit) {}) call := by
  have once : fRegTest = false → ((sampled fRegTest nOffsetLimit {} calls).map Prod.fst).Nodup := by
    intro network
    rw [network]
    exact (sampled_once calls {}).1
  have range : InRange ({} : TimeData Addr) := by
    intro n member
    rw [List.mem_singleton.mp member]
    decide
  have runs := Run.kept_iff_meets InRange (Bounded nOffsetLimit) range
    (fun t call inRange => @addTimeData_range Addr _ fRegTest nOffsetLimit t inRange call)
    (show |(0 : Int)| ≤ nOffsetLimit by rw [abs_zero]; omega)
    (fun t call inRange bounded => bounded_addTimeData limit inRange bounded call) calls
  rw [and_iff_left once]
  exact runs

def mixedSamples : List (Nat × OffsetSample) :=
  [(1, ⟨INT64_MIN, by decide⟩), (2, ⟨40, by decide⟩), (2, ⟨-9, by decide⟩), (3, ⟨INT64_MIN, by decide⟩), (4, ⟨2 ^ 62, by decide⟩)]

theorem mixedSamples_bounded : |(mixedSamples.foldl (addTimeData false 15) {}).nTimeOffset| ≤ 15 := by
  refine ((offset_bounded_iff false (by decide) mixedSamples).mpr ?_).1 mixedSamples (List.prefix_refl _)
  intro before call inside
  have each : ∀ k < 5, (mixedSamples[k]?).all fun call => decide (Meets false ((mixedSamples.take k).foldl (addTimeData false 15) {}) call) := by
    decide
  have here := each before.length (by
    have length := inside.length_le
    rw [List.length_append] at length
    exact length)
  obtain ⟨rest, whole⟩ := inside
  have front : mixedSamples.take before.length = before := by rw [← whole, List.append_assoc, List.take_left]
  have next : mixedSamples[before.length]? = some call := by
    rw [← whole, List.append_assoc, List.getElem?_append_right (Nat.le_refl _), Nat.sub_self]
    rfl
  rw [front, next, Option.all_some, decide_eq_true_iff] at here
  exact here

/-- Three of four peers report the least number: its absolute value is itself, below every limit. -/
theorem least_sample_taken : ∃ calls : List (Nat × OffsetSample), calls.length = 4 ∧
    (calls.foldl (addTimeData false 15) {}).nTimeOffset = -2 ^ 63 ∧ ¬|(calls.foldl (addTimeData false 15) {}).nTimeOffset| ≤ 15 := by
  refine ⟨[(1, ⟨INT64_MIN, by decide⟩), (2, ⟨INT64_MIN, by decide⟩), (3, ⟨0, by decide⟩), (4, ⟨INT64_MIN, by decide⟩)], rfl, ?_, ?_⟩
  · decide
  · decide

end TimeData

end SchillingCoin
