import Mathlib.Data.List.Sort
import Mathlib.Data.List.Dedup

/-!
Loops over a set of things still to do. The smallest one is taken out, visited, and what the visit names is added unless
it was taken out before. Every visit may fail.
-/

universe u v w

namespace Worklist

variable {S : Type u} {K : Type v} {E : Type w} [DecidableEq K] (le : K → K → Prop) [DecidableRel le]

def add (done todo : List K) (k : K) : List K := if k ∈ done ∨ k ∈ todo then todo else todo.orderedInsert le k

/-- The loop with a bound on its rounds; it fails with `stuck` when there is more to do. -/
def loop (visit : S → K → Except E (S × List K)) (stuck : E) : Nat → List K → List K → S → Except E S
  | _, [], _, s => .ok s
  | 0, _ :: _, _, _ => .error stuck
  | rounds + 1, now :: todo, done, s =>
    match visit s now with
    | .error e => .error e
    | .ok (s, next) => loop visit stuck rounds (next.foldl (add le (now :: done)) todo) (now :: done) s

variable {le}

theorem mem_foldl_add {next : List K} : k ∈ next.foldl (add le done) todo ↔ k ∈ todo ∨ k ∈ next ∧ k ∉ done := by
  induction next generalizing todo with
  | nil => simp
  | cons n next ih =>
    rw [List.foldl_cons, ih, add]
    split
    · rename_i known
      constructor
      · rintro (old | ⟨new, fresh⟩)
        · exact Or.inl old
        · exact Or.inr ⟨List.mem_cons_of_mem _ new, fresh⟩
      · rintro (old | ⟨new, fresh⟩)
        · exact Or.inl old
        · rcases List.mem_cons.mp new with rfl | new
          · exact Or.inl (known.resolve_left fresh)
          · exact Or.inr ⟨new, fresh⟩
    · rename_i unknown
      rw [List.mem_orderedInsert, List.mem_cons]
      constructor
      · rintro ((rfl | old) | ⟨new, fresh⟩)
        · exact Or.inr ⟨Or.inl rfl, fun isDone => unknown (Or.inl isDone)⟩
        · exact Or.inl old
        · exact Or.inr ⟨Or.inr new, fresh⟩
      · rintro (old | ⟨rfl | new, fresh⟩)
        · exact Or.inl (Or.inr old)
        · exact Or.inl (Or.inl rfl)
        · exact Or.inr ⟨new, fresh⟩

theorem nodup_foldl_add {next : List K} (nodup : todo.Nodup) : (next.foldl (add le done) todo).Nodup := by
  induction next generalizing todo with
  | nil => exact nodup
  | cons n next ih =>
    rw [List.foldl_cons]
    apply ih
    unfold add
    split
    · exact nodup
    · rename_i unknown
      have inserted := (List.perm_orderedInsert le n todo).nodup_iff
      exact inserted.mpr (List.nodup_cons.mpr ⟨fun member => unknown (Or.inr member), nodup⟩)

/-- A loop that visits only members of a finite set, with a round for each of them, keeps what every visit keeps, and
fails only where a visit fails. -/
theorem loop_spec {visit : S → K → Except E (S × List K)} (universe_ : List K) (Inv : S → Prop)
    (kept : ∀ s k s' next, Inv s → k ∈ universe_ → visit s k = .ok (s', next) → Inv s' ∧ ∀ n ∈ next, n ∈ universe_)
    {todo done : List K} (inv : Inv s) (nodup : todo.Nodup) (fresh : ∀ k ∈ todo, k ∉ done) (inside : ∀ k ∈ todo, k ∈ universe_)
    (enough : (universe_.dedup.filter (· ∉ done)).length ≤ rounds) :
    (∀ s', loop le visit stuck rounds todo done s = .ok s' → Inv s') ∧
      ∀ e, loop le visit stuck rounds todo done s = .error e → ∃ s k, Inv s ∧ k ∈ universe_ ∧ visit s k = .error e := by
  induction rounds generalizing todo done s with
  | zero =>
    cases todo with
    | nil =>
      unfold loop
      exact ⟨fun s' same => Except.ok.inj same ▸ inv, fun e same => nomatch same⟩
    | cons now todo =>
      -- The set is exhausted, so nothing can be left to do.
      have none_ : universe_.dedup.filter (· ∉ done) = [] := List.length_eq_zero_iff.mp (by omega)
      have left := List.filter_eq_nil_iff.mp none_ now (List.mem_dedup.mpr (inside now (by simp)))
      exact absurd (fresh now (by simp)) (by simpa using left)
  | succ rounds ih =>
    cases todo with
    | nil =>
      unfold loop
      exact ⟨fun s' same => Except.ok.inj same ▸ inv, fun e same => nomatch same⟩
    | cons now todo =>
      have inNow := inside now (by simp)
      unfold loop
      cases visited : visit s now with
      | error e' =>
        refine ⟨fun s' same => (nomatch same), fun e same => ⟨s, now, inv, inNow, ?_⟩⟩
        rw [visited, Except.error.inj same]
      | ok result =>
        obtain ⟨s', next⟩ := result
        obtain ⟨inv', nextInside⟩ := kept s now s' next inv inNow visited
        obtain ⟨notTodo, nodup'⟩ := List.nodup_cons.mp nodup
        apply ih inv' (nodup_foldl_add nodup')
        · intro k member
          rcases mem_foldl_add.mp member with old | ⟨_, notDone⟩
          · have different : k ≠ now := fun same => notTodo (same ▸ old)
            have notDone := fresh k (List.mem_cons_of_mem _ old)
            simp [different, notDone]
          · exact notDone
        · intro k member
          rcases mem_foldl_add.mp member with old | ⟨new, _⟩
          · exact inside k (List.mem_cons_of_mem _ old)
          · exact nextInside k new
        · -- One member more is done.
          have less : (universe_.dedup.filter (· ∉ now :: done)).length < (universe_.dedup.filter (· ∉ done)).length := by
            have here : now ∈ universe_.dedup.filter (· ∉ done) := by
              simp [inNow, fresh now (by simp)]
            have same : universe_.dedup.filter (· ∉ now :: done) = (universe_.dedup.filter (· ∉ done)).erase now := by
              rw [((List.nodup_dedup universe_).filter _).erase_eq_filter, List.filter_filter]
              congr 1
              funext k
              by_cases isNow : k = now
              · simp [isNow]
              · simp [isNow]
            rw [same, List.length_erase_of_mem here]
            have positive := List.length_pos_of_mem here
            omega
          omega

/-- What a loop takes up that starts at one key and goes on from those that it goes through. -/
inductive Touched (goes : K → Prop) (leads : K → K → Prop) (start : K) : K → Prop where
  | start : Touched goes leads start start
  | next {p k : K} : Touched goes leads start p → goes p → leads p k → Touched goes leads start k

/-- Between two rounds: whatever a key that was gone through leads to is taken up, or is still to do. -/
structure Frontier (goes : K → Prop) (leads : K → K → Prop) (start : K) (todo done : List K) : Prop where
  nodup : todo.Nodup
  fresh : ∀ k ∈ todo, k ∉ done
  touched : ∀ k, k ∈ todo ∨ k ∈ done → Touched goes leads start k
  started : start ∈ todo ∨ start ∈ done
  closed : ∀ p ∈ done, goes p → ∀ k, leads p k → k ∈ todo ∨ k ∈ done

namespace Frontier

variable {goes : K → Prop} {leads : K → K → Prop} {start now : K} {todo done next : List K}

omit [DecidableEq K] in
theorem init : Frontier goes leads start [start] [] where
  nodup := List.nodup_singleton _
  fresh := by simp
  touched k member := by
    rcases member with member | member
    · rw [List.mem_singleton.mp member]
      exact .start
    · exact absurd member List.not_mem_nil
  started := Or.inl List.mem_cons_self
  closed p member := absurd member List.not_mem_nil

theorem taken (front : Frontier goes leads start (now :: todo) done) (through : goes now → ∀ k, leads now k → k ∈ next)
    (led : ∀ k ∈ next, goes now ∧ leads now k) : Frontier goes leads start (next.foldl (add le (now :: done)) todo) (now :: done) := by
  obtain ⟨apart, nodup⟩ := List.nodup_cons.mp front.nodup
  have here : Touched goes leads start now := front.touched now (Or.inl List.mem_cons_self)
  refine ⟨nodup_foldl_add nodup, ?_, ?_, ?_, ?_⟩
  · intro k member
    rcases mem_foldl_add.mp member with old | ⟨_, isNew⟩
    · have different : k ≠ now := fun same => apart (same ▸ old)
      simp [different, front.fresh k (List.mem_cons_of_mem _ old)]
    · exact isNew
  · intro k member
    rcases member with member | member
    · rcases mem_foldl_add.mp member with old | ⟨named, _⟩
      · exact front.touched k (Or.inl (List.mem_cons_of_mem _ old))
      · exact here.next (led k named).1 (led k named).2
    · rcases List.mem_cons.mp member with rfl | old
      · exact here
      · exact front.touched k (Or.inr old)
  · rcases front.started with first | old
    · rcases List.mem_cons.mp first with rfl | waiting
      · exact Or.inr List.mem_cons_self
      · exact Or.inl (mem_foldl_add.mpr (Or.inl waiting))
    · exact Or.inr (List.mem_cons_of_mem _ old)
  · intro p member goesP k leadsK
    by_cases known : k ∈ now :: done
    · exact Or.inr known
    · refine Or.inl (mem_foldl_add.mpr ?_)
      rcases List.mem_cons.mp member with rfl | old
      · exact Or.inr ⟨through goesP k leadsK, known⟩
      · rcases front.closed p old goesP k leadsK with waiting | isDone
        · exact Or.inl ((List.mem_cons.mp waiting).resolve_left fun same => known (same ▸ List.mem_cons_self))
        · exact absurd (List.mem_cons_of_mem _ isDone) known

omit [DecidableEq K] in
theorem ended (front : Frontier goes leads start [] done) (k : K) : k ∈ done ↔ Touched goes leads start k := by
  constructor
  · exact fun isDone => front.touched k (Or.inr isDone)
  · intro touched
    induction touched with
    | start => exact front.started.resolve_left List.not_mem_nil
    | next _ goesP leadsK ih => exact (front.closed _ ih goesP _ leadsK).resolve_left List.not_mem_nil

end Frontier

/-- A loop whose visits mark the keys that they go through, and name what these lead to, marks at its end exactly the touched ones of them. -/
theorem loop_marks {visit : S → K → Except E (S × List K)} {stuck : E} (Marked : S → (K → Prop) → Prop)
    (visits : ∀ s marked k s' next, Touched goes leads start k → ¬ marked k → Marked s marked → visit s k = .ok (s', next) → goes k ∧ Marked s' (fun n => n = k ∨ marked n) ∧ (∀ n, n ∈ next ↔ leads k n) ∨ ¬ goes k ∧ s' = s ∧ next = [])
    (front : Frontier goes leads start todo done) (marked : Marked s fun k => k ∈ done ∧ goes k)
    (ended : loop le visit stuck rounds todo done s = .ok s') : Marked s' fun k => Touched goes leads start k ∧ goes k := by
  induction rounds generalizing todo done s with
  | zero =>
    cases todo with
    | cons now todo => exact nomatch ended
    | nil =>
      unfold loop at ended
      cases ended
      simpa only [front.ended] using marked
  | succ rounds ih =>
    cases todo with
    | nil =>
      unfold loop at ended
      cases ended
      simpa only [front.ended] using marked
    | cons now todo =>
      unfold loop at ended
      cases visited : visit s now with
      | error e =>
        rw [visited] at ended
        exact nomatch ended
      | ok result =>
        obtain ⟨mid, next⟩ := result
        rw [visited] at ended
        have notDone := front.fresh now List.mem_cons_self
        have touched := front.touched now (Or.inl List.mem_cons_self)
        rcases visits s _ now mid next touched (fun both => notDone both.1) marked visited with
          ⟨through, markedNow, leads_iff⟩ | ⟨stops, rfl, rfl⟩
        · have front' : Frontier goes leads start (next.foldl (add le (now :: done)) todo) (now :: done) :=
            front.taken (fun _ k => (leads_iff k).mpr) fun k named => ⟨through, (leads_iff k).mp named⟩
          have same : (fun k => k = now ∨ k ∈ done ∧ goes k) = fun k => k ∈ now :: done ∧ goes k := by
            funext k
            by_cases here : k = now
            · simp [here, through]
            · simp [here]
          rw [same] at markedNow
          exact ih front' markedNow ended
        · have front' : Frontier goes leads start (([] : List K).foldl (add le (now :: done)) todo) (now :: done) :=
            front.taken (fun through => absurd through stops) fun k named => absurd named List.not_mem_nil
          have same : (fun k => k ∈ done ∧ goes k) = fun k => k ∈ now :: done ∧ goes k := by
            funext k
            by_cases here : k = now
            · simp [here, stops]
            · simp [here]
          rw [same] at marked
          exact ih front' marked ended

end Worklist
