import Mathlib.Data.List.Induction

/-!
Runs of a machine: the states reached by steps that meet a condition, and runs whose steps can fail
and answer their caller, with their simulation by a specification.
-/

universe u v w

namespace Run

variable {S : Type u} {Op : Type v} {Answer : Type w}

/-- The answers and the state after a list of operations, `none` once a step fails. -/
def run (step : S → Op → Option (Answer × S)) (s : S) : List Op → Option (List Answer × S)
  | [] => some ([], s)
  | op :: ops => do
    let (answer, s) ← step s op
    let (answers, s) ← run step s ops
    return (answer :: answers, s)

/-- The states a machine reaches when every step meets a condition on the state before it. -/
inductive Reached (next : S → Op → S) (ok : S → Op → Prop) (init : S) : S → Prop
  | start : Reached next ok init init
  | step {s : S} (op : Op) (before : Reached next ok init s) (meets : ok s op) : Reached next ok init (next s op)

variable {next : S → Op → S} {ok : S → Op → Prop} {init : S}

/-- What holds at the start and is kept by every step that meets the condition holds in every state reached. -/
theorem Reached.invariant (reached : Reached next ok init s) (Inv : S → Prop) (start : Inv init)
    (kept : ∀ s op, Inv s → ok s op → Inv (next s op)) : Inv s := by
  induction reached with
  | start => exact start
  | step op _ meets ih => exact kept _ op ih meets

/-- A run keeps a property throughout exactly when each of its steps meets a condition, when a step that starts
with the property keeps it exactly under that condition. -/
theorem kept_iff_meets (Inv Good : S → Prop) (inv : Inv init) (invNext : ∀ s op, Inv s → Inv (next s op))
    (good : Good init) (exact_ : ∀ s op, Inv s → Good s → (Good (next s op) ↔ ok s op)) (ops : List Op) :
    (∀ before, before <+: ops → Good (before.foldl next init)) ↔
      ∀ before op, before ++ [op] <+: ops → ok (before.foldl next init) op := by
  have always : ∀ l : List Op, Inv (l.foldl next init) := fun l => List.foldlRecOn l next inv fun s h op _ => invNext s op h
  constructor
  · intro kept before op inside
    have here := kept before ((List.prefix_append before [op]).trans inside)
    have after := kept _ inside
    rw [List.foldl_append] at after
    exact (exact_ _ op (always before) here).mp after
  · intro meets before
    induction before using List.reverseRecOn with
    | nil => exact fun _ => good
    | append_singleton before op ih =>
      intro inside
      rw [List.foldl_append]
      exact (exact_ _ op (always before) (ih ((List.prefix_append before [op]).trans inside))).mpr (meets before op inside)

/-- The same for a property that is not kept by itself, but as a part of an invariant: a step that starts with the
invariant and does not meet the condition breaks the property. -/
theorem holds_iff_meets (Inv Holds : S → Prop) (inv : Inv init) (holds : ∀ s, Inv s → Holds s)
    (kept : ∀ s op, Inv s → ok s op → Inv (next s op))
    (broken : ∀ s op, Inv s → ¬ok s op → ¬Holds (next s op)) (ops : List Op) :
    (∀ before, before <+: ops → Holds (before.foldl next init)) ↔
      ∀ before op, before ++ [op] <+: ops → ok (before.foldl next init) op := by
  have along : (∀ before op, before ++ [op] <+: ops → ok (before.foldl next init) op) →
      ∀ before, before <+: ops → Inv (before.foldl next init) := by
    intro meets before
    induction before using List.reverseRecOn with
    | nil => exact fun _ => inv
    | append_singleton before op ih =>
      intro inside
      rw [List.foldl_append]
      exact kept _ op (ih ((List.prefix_append before [op]).trans inside)) (meets before op inside)
  constructor
  · intro good before
    -- The invariant holds before the first step that does not meet the condition.
    have inv_ : before <+: ops → Inv (before.foldl next init) := by
      induction before using List.reverseRecOn with
      | nil => exact fun _ => inv
      | append_singleton before op ih =>
        intro inside
        have before_ := ih ((List.prefix_append before [op]).trans inside)
        rw [List.foldl_append]
        apply kept _ op before_
        by_contra unmet
        apply broken _ op before_ unmet
        have here := good _ inside
        rw [List.foldl_append] at here
        exact here
    intro op inside
    by_contra unmet
    apply broken _ op (inv_ ((List.prefix_append before [op]).trans inside)) unmet
    have here := good _ inside
    rw [List.foldl_append] at here
    exact here
  · intro meets before inside
    exact holds _ (along meets before inside)

/-- The state after operations that may stop the machine. -/
def after (next : S → Op → Option S) (init : S) (ops : List Op) : Option S := ops.foldl (fun s op => s.bind fun s => next s op) (some init)

theorem after_append (next : S → Op → Option S) (init : S) (ops : List Op) (op : Op) :
    after next init (ops ++ [op]) = (after next init ops).bind fun s => next s op := List.foldl_append

/-- The steps of a run are good exactly when they meet a condition, when a step from a state with the invariant is good exactly under
that condition, and a good step keeps the invariant. -/
theorem steps_iff_meets {next : S → Op → Option S} {Good : S → Op → Prop} (Inv : S → Prop) (inv : Inv init)
    (kept : ∀ s op t, Inv s → Good s op → next s op = some t → Inv t)
    (exact_ : ∀ s op, Inv s → (Good s op ↔ ok s op)) (ops : List Op) :
    (∀ before op, before ++ [op] <+: ops → ∀ s, after next init before = some s → Good s op) ↔
      ∀ before op, before ++ [op] <+: ops → ∀ s, after next init before = some s → ok s op := by
  -- the invariant is at every state that good steps reach
  have along : ∀ {P : S → Op → Prop}, (∀ s op, Inv s → P s op → Good s op) →
      (∀ before op, before ++ [op] <+: ops → ∀ s, after next init before = some s → P s op) →
      ∀ before, before <+: ops → ∀ s, after next init before = some s → Inv s := by
    intro P good steps before
    induction before using List.reverseRecOn with
    | nil =>
      intro _ s reached
      rw [← Option.some.inj reached]
      exact inv
    | append_singleton before op ih =>
      intro inside t reached
      rw [after_append] at reached
      obtain ⟨s, here, step⟩ := Option.bind_eq_some_iff.mp reached
      have inv := ih ((List.prefix_append before [op]).trans inside) s here
      exact kept s op t inv (good s op inv (steps before op inside s here)) step
  constructor
  · intro good before op inside s reached
    have inv := along (fun _ _ _ isGood => isGood) good before ((List.prefix_append before [op]).trans inside) s reached
    exact (exact_ s op inv).mp (good before op inside s reached)
  · intro meets before op inside s reached
    have inv := along (fun s op inv => (exact_ s op inv).mpr) meets before ((List.prefix_append before [op]).trans inside) s reached
    exact (exact_ s op inv).mpr (meets before op inside s reached)

/-- Where every allowed step succeeds with a good answer and keeps an invariant, so does every run of allowed steps. -/
theorem run_answers (Inv : S → Prop) (Allowed : Op → Prop) (Good : Op → Answer → Prop)
    (one : ∀ s op, Inv s → Allowed op → ∃ answer t, step s op = some (answer, t) ∧ Good op answer ∧ Inv t) (ops : List Op)
    (inv : Inv s) (allowed : ∀ op ∈ ops, Allowed op) :
    ∃ answers t, run step s ops = some (answers, t) ∧ List.Forall₂ Good ops answers ∧ Inv t := by
  induction ops generalizing s with
  | nil => exact ⟨[], s, rfl, .nil, inv⟩
  | cons op ops ih =>
    obtain ⟨answer, mid, first, good, inv⟩ := one s op inv (allowed op List.mem_cons_self)
    obtain ⟨answers, t, rest, goods, inv⟩ := ih inv fun op' member => allowed op' (List.mem_cons_of_mem op member)
    exact ⟨answer :: answers, t, by simp [run, first, rest], .cons good goods, inv⟩

section Simulation

variable {A : Type*} (shows : A → Op → Answer → Prop) (next : A → Op → Answer → A)

/-- Every answer is one the specification shows at its own state. -/
def Explains (a : A) : List Op → List Answer → Prop
  | [], [] => True
  | op :: ops, answer :: answers => shows a op answer ∧ Explains (next a op answer) ops answers
  | _, _ => False

/-- The state of the specification after the operations. -/
def follow (a : A) : List Op → List Answer → A
  | op :: ops, answer :: answers => follow (next a op answer) ops answers
  | _, _ => a

/-- A run whose steps all meet a condition is explained, where every such step is one the specification takes too. -/
theorem explains_of_run {step : S → Op → Option (Answer × S)} {shows : A → Op → Answer → Prop} {next : A → Op → Answer → A}
    {Ok : Op → Answer → Prop} (R : S → A → Prop)
    (sim : ∀ s a op answer t, R s a → step s op = some (answer, t) → Ok op answer → shows a op answer ∧ R t (next a op answer))
    {ops : List Op} {answers : List Answer} {s t : S} {a : A} (related : R s a) (ran : run step s ops = some (answers, t))
    (ok : List.Forall₂ Ok ops answers) : Explains shows next a ops answers ∧ R t (follow next a ops answers) := by
  induction ok generalizing s a with
  | nil =>
    cases ran
    exact ⟨trivial, related⟩
  | cons meets _ ih =>
    obtain ⟨⟨answer, mid⟩, first, ran⟩ := Option.bind_eq_some_iff.mp ran
    obtain ⟨⟨answers, last⟩, rest, ran⟩ := Option.bind_eq_some_iff.mp ran
    cases ran
    obtain ⟨shown, related⟩ := sim _ _ _ _ _ related first meets
    obtain ⟨explained, related⟩ := ih related rest
    exact ⟨⟨shown, explained⟩, related⟩

end Simulation

end Run
