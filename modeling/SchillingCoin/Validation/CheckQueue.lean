import Mathlib.Algebra.BigOperators.Group.Finset.Basic
import Mathlib.Algebra.BigOperators.Group.Finset.Piecewise
import Mathlib.Algebra.Order.BigOperators.Group.Finset
import Mathlib.Data.Fintype.Option
import Mathlib.Data.Multiset.AddSub

/-!
The queue of script checks that several threads work on, after `checkqueue.h`. A step is one critical section of a thread or one
check outside the mutex; a waiting thread may wake at any time. Counters are unbounded.
-/

namespace SchillingCoin

structure CCheckQueue (T : Type) where
  queue : List T := []
  nIdle : Int := 0
  nTotal : Int := 0
  fAllOk : Bool := true
  nTodo : Nat := 0
  fQuit : Bool := false
  nBatchSize : Nat

inductive LoopState (T : Type) where
  | outside
  | waiting (notified : Bool)
  | locked
  | executing (nNow : Nat) (vChecks : List T) (fOk : Bool)

namespace CCheckQueue

variable {T : Type}

variable (q : CCheckQueue T)

def isIdle : Bool := decide (q.nTotal = q.nIdle) && decide (q.nTodo = 0) && q.fAllOk

def cleanUp (nNow : Nat) (fOk : Bool) : CCheckQueue T :=
  if nNow ≠ 0 then { q with fAllOk := q.fAllOk && fOk, nTodo := q.nTodo - nNow } else { q with nTotal := q.nTotal + 1 }

def batch : Nat := max 1 (min q.nBatchSize (q.queue.length / (q.nTotal + q.nIdle + 1).toNat))

end CCheckQueue

/-- The threads on one queue; the master is `none`. The last four fields only record what happened. -/
structure CheckThreads (T W : Type) where
  shared : CCheckQueue T
  threads : Option W → LoopState T := fun _ => .outside
  /-- A `CCheckQueueControl` is alive and has not waited yet. -/
  control : Bool := false
  aborted : Bool := false
  /-- The checks added since the previous `Wait`. -/
  round : Multiset T := 0
  added : Multiset T := 0
  evaluated : Multiset T := 0
  /-- For every `Wait` that returned, the checks it was about and what it returned. -/
  returned : List (Multiset T × Bool) := []

namespace CheckThreads

open LoopState

variable {T W : Type} [DecidableEq W]

variable (s : CheckThreads T W) (i : Option W) (eval : T → Bool)

def setThread (l : LoopState T) : CheckThreads T W :=
  { s with threads := Function.update s.threads i l }

def notify : CheckThreads T W :=
  match s.threads i with
  | .waiting _ => s.setThread i (.waiting true)
  | _ => s

/-- A thread takes the mutex: at the start of `Loop`, after its batch, or out of `wait`. Only the last worker of a round notifies the
master. -/
def enter : Option (CheckThreads T W) :=
  match s.threads i with
  | .outside =>
    if i.isNone && !s.control then none
    else some ({ s with shared := s.shared.cleanUp 0 true }.setThread i .locked)
  | .waiting _ => some ({ s with shared := { s.shared with nIdle := s.shared.nIdle - 1 } }.setThread i .locked)
  | .executing nNow [] fOk =>
    let s := { s with shared := s.shared.cleanUp nNow fOk }.setThread i .locked
    some (if nNow ≠ 0 ∧ s.shared.nTodo = 0 ∧ i.isSome then s.notify none else s)
  | _ => none

def proceed : CheckThreads T W :=
  let q := s.shared
  if q.queue.isEmpty then
    if (i.isNone || q.fQuit) && decide (q.nTodo = 0) then
      let s := { s with shared := { q with nTotal := q.nTotal - 1, fAllOk := if i.isNone then true else q.fAllOk } }.setThread i .outside
      if i.isNone then { s with control := false, round := 0, returned := (s.round, q.fAllOk) :: s.returned } else s
    else { s with shared := { q with nIdle := q.nIdle + 1 } }.setThread i (.waiting false)
  else
    let rest := q.queue.length - q.batch
    { s with shared := { q with queue := q.queue.take rest } }.setThread i
      (.executing q.batch (q.queue.drop rest).reverse q.fAllOk)

def construct : Option (CheckThreads T W) :=
  match s.threads none, s.control with
  | .outside, false => some (if s.shared.isIdle then { s with control := true } else { s with aborted := true })
  | _, _ => none

def notifyAll : CheckThreads T W :=
  { s with
    threads := fun i => match i, s.threads i with
      | some _, .waiting _ => .waiting true
      | _, l => l }

def push (vChecks : List T) : CheckThreads T W :=
  { s with
    shared := { s.shared with queue := s.shared.queue ++ vChecks, nTodo := s.shared.nTodo + vChecks.length }
    round := s.round + vChecks
    added := s.added + vChecks }

def add (vChecks : List T) (woken : W) : Option (CheckThreads T W) :=
  match s.threads none, s.control with
  | .outside, true =>
    some (if vChecks.length = 1 then (s.push vChecks).notify (some woken)
      else if vChecks.length > 1 then (s.push vChecks).notifyAll
      else s.push vChecks)
  | _, _ => none

def evaluate (s : CheckThreads T W) (i : Option W) : Option (CheckThreads T W) :=
  match s.threads i with
  | .executing nNow (check :: vChecks) fOk =>
    some ({ s with evaluated := if fOk then check ::ₘ s.evaluated else s.evaluated }.setThread i
      (.executing nNow vChecks (if fOk then eval check else fOk)))
  | _ => none

inductive Event (T W : Type) where
  | construct
  | add (vChecks : List T) (woken : W)
  /-- A critical section of `Loop`; for the master outside it, the call of `Wait`. -/
  | pass (i : Option W)
  | evaluate (i : Option W)

/-- `none` is an event that cannot happen. -/
def next (s : CheckThreads T W) : Event T W → Option (CheckThreads T W)
  | .construct => s.construct
  | .add vChecks woken => s.add vChecks woken
  | .pass i => (s.enter i).map fun s => s.proceed i
  | .evaluate i => s.evaluate eval i

def run (nBatchSize : Nat) (events : List (Event T W)) : Option (CheckThreads T W) :=
  events.foldlM (next eval) { shared := { nBatchSize } }

end CheckThreads

namespace LoopState

variable {T : Type}

def nNow : LoopState T → Nat
  | .executing nNow _ _ => nNow
  | _ => 0

def waits : LoopState T → Nat
  | .waiting _ => 1
  | _ => 0

def executes : LoopState T → Nat
  | .executing _ _ _ => 1
  | _ => 0

def inLoop : LoopState T → Nat
  | .outside => 0
  | _ => 1

def open_ : LoopState T → Multiset T
  | .executing _ vChecks _ => vChecks
  | _ => 0

def Good (eval : T → Bool) : LoopState T → Prop
  | .executing _ vChecks fOk => fOk = true ∧ ∀ c ∈ vChecks, eval c = true
  | _ => True

end LoopState

namespace CheckThreads

open LoopState

variable {T W : Type} [DecidableEq W]

theorem setThread_self (s : CheckThreads T W) (i : Option W) (l : LoopState T) : (s.setThread i l).threads i = l := by
  simp [setThread]

variable {s t : CheckThreads T W} {i : Option W}

theorem setThread_ne (l : LoopState T) (other : j ≠ i) : (s.setThread i l).threads j = s.threads j := by
  simp [setThread, other]

theorem setThread_forall (p : LoopState T → Prop) :
    (∀ j, p ((s.setThread i l).threads j)) ↔ p l ∧ ∀ j, j ≠ i → p (s.threads j) := by
  constructor
  · intro all
    refine ⟨?_, fun j other => ?_⟩
    · have here := all i
      rw [setThread_self] at here
      exact here
    · have there := all j
      rw [setThread_ne _ other] at there
      exact there
  · rintro ⟨here, others⟩ j
    by_cases same : j = i
    · rw [same, setThread_self]
      exact here
    · rw [setThread_ne _ same]
      exact others j same

theorem threads_forall (i : Option W) (p : LoopState T → Prop) :
    (∀ j, p (s.threads j)) ↔ p (s.threads i) ∧ ∀ j, j ≠ i → p (s.threads j) := by
  refine ⟨fun all => ⟨all i, fun j _ => all j⟩, fun ⟨here, others⟩ j => ?_⟩
  by_cases same : j = i
  · rw [same]
    exact here
  · exact others j same

section Totals

variable [Fintype W] {M : Type} [AddCommMonoid M]

variable (s : CheckThreads T W)

def total (f : LoopState T → M) : M := ∑ i, f (s.threads i)

theorem total_setThread (f : LoopState T → M) (s : CheckThreads T W) (i : Option W) (l : LoopState T) :
    (s.setThread i l).total f + f (s.threads i) = s.total f + f l := by
  have moved : (fun j => f ((s.setThread i l).threads j)) = Function.update (fun j => f (s.threads j)) i (f l) := by
    funext j
    by_cases same : j = i
    · rw [same, setThread_self, Function.update_self]
    · rw [setThread_ne _ same, Function.update_of_ne same]
  have rest := Finset.add_sum_erase Finset.univ (fun j => f (s.threads j)) (Finset.mem_univ i)
  unfold total
  rw [moved, Finset.sum_update_of_mem (Finset.mem_univ i), Finset.sdiff_singleton_eq_erase, ← rest]
  ac_rfl

omit [DecidableEq W] in
theorem le_total (f : LoopState T → Nat) (s : CheckThreads T W) (i : Option W) : f (s.threads i) ≤ s.total f := by
  exact Finset.single_le_sum (f := fun j => f (s.threads j)) (fun _ _ => Nat.zero_le _) (Finset.mem_univ i)

end Totals

structure WokenFrom (s t : CheckThreads T W) : Prop where
  rest : t = { s with threads := t.threads }
  threads : ∀ j, t.threads j = s.threads j ∨ ∃ b, s.threads j = .waiting b ∧ t.threads j = .waiting true

theorem notify_woken (s : CheckThreads T W) (i : Option W) : s.WokenFrom (s.notify i) := by
  unfold notify
  split
  · rename_i b waiting
    refine ⟨rfl, fun j => ?_⟩
    by_cases at_ : j = i
    · rw [at_, setThread_self]
      exact Or.inr ⟨b, waiting, rfl⟩
    · rw [setThread_ne _ at_]
      exact Or.inl rfl
  · exact ⟨rfl, fun _ => Or.inl rfl⟩

variable [Fintype W] {eval : T → Bool}

structure Core (eval : T → Bool) (s : CheckThreads T W) : Prop where
  quit : s.shared.fQuit = false
  batches : ∀ i nNow vChecks fOk, s.threads i = .executing nNow vChecks fOk → 0 < nNow ∧ vChecks.length ≤ nNow
  todo : s.shared.nTodo = s.shared.queue.length + s.total nNow
  idle : s.shared.nIdle = (s.total waits : Nat)
  running : s.shared.nTotal = (s.total inLoop : Nat)
  verdict : (∀ c ∈ s.round, eval c = true) ↔
    s.shared.fAllOk = true ∧ (∀ c ∈ s.shared.queue, eval c = true) ∧ ∀ i, (s.threads i).Good eval
  once : s.evaluated + s.shared.queue + s.total open_ ≤ s.added
  closed : s.control = false → s.shared.nTodo = 0 ∧ s.shared.fAllOk = true ∧ s.threads none = .outside ∧ s.round = 0
  verdicts : ∀ r ∈ s.returned, r.2 = true ↔ ∀ c ∈ r.1, eval c = true
  asserted : s.aborted = false

omit [DecidableEq W] in
theorem core_start (nBatchSize : Nat) : Core eval ({ shared := { nBatchSize } } : CheckThreads T W) where
  quit := rfl
  batches := nofun
  todo := by simp [total, nNow]
  idle := by simp [total, waits]
  running := by simp [total, inLoop]
  verdict := by simp [Good]
  once := by simp [total, open_]
  closed := by simp
  verdicts := by simp
  asserted := rfl

theorem Core.move (core : Core eval s) (q : CCheckQueue T) (log : Multiset T) (quit : q.fQuit = false)
    (batch : ∀ nNow vChecks fOk, l = .executing nNow vChecks fOk → 0 < nNow ∧ vChecks.length ≤ nNow)
    (todo : q.nTodo + s.shared.queue.length + (s.threads i).nNow = s.shared.nTodo + q.queue.length + l.nNow)
    (idle : q.nIdle + (s.threads i).waits = s.shared.nIdle + l.waits)
    (running : q.nTotal + (s.threads i).inLoop = s.shared.nTotal + l.inLoop)
    (verdict : q.fAllOk = true ∧ (∀ c ∈ q.queue, eval c = true) ∧ l.Good eval ↔ s.shared.fAllOk = true ∧ (∀ c ∈ s.shared.queue, eval c = true) ∧ (s.threads i).Good eval)
    (once : log + q.queue + l.open_ ≤ s.evaluated + s.shared.queue + (s.threads i).open_)
    (closed : s.control = false → q.nTodo = 0 ∧ q.fAllOk = true ∧ (i = none → l = .outside)) :
    Core eval ({ s with shared := q, evaluated := log }.setThread i l) := by
  have count : ∀ f : LoopState T → Nat, ({ s with shared := q, evaluated := log }.setThread i l).total f + f (s.threads i) =
      s.total f + f l := fun f => total_setThread f { s with shared := q, evaluated := log } i l
  refine ⟨quit, ?_, ?_, ?_, ?_, ?_, ?_, ?_, core.verdicts, core.asserted⟩
  · intro j n rest ok here
    by_cases at_ : j = i
    · rw [at_, setThread_self] at here
      exact batch n rest ok here
    · rw [setThread_ne _ at_] at here
      exact core.batches j n rest ok here
  · have before := core.todo
    have moved := count nNow
    show q.nTodo = q.queue.length + _
    omega
  · have before := core.idle
    have moved := count waits
    show q.nIdle = _
    omega
  · have before := core.running
    have moved := count inLoop
    show q.nTotal = _
    omega
  · have before := core.verdict
    rw [threads_forall i, ← and_assoc, ← and_assoc, and_assoc (a := s.shared.fAllOk = true), ← verdict] at before
    rw [setThread_forall]
    show (∀ c ∈ s.round, eval c = true) ↔ q.fAllOk = true ∧ (∀ c ∈ q.queue, eval c = true) ∧ _
    rw [before]
    simp only [and_assoc]
  · have moved := total_setThread open_ { s with shared := q, evaluated := log } i l
    have before := core.once
    show log + q.queue + _ ≤ s.added
    refine le_trans ?_ before
    refine le_of_add_le_add_right (a := (s.threads i).open_) ?_
    calc log + q.queue + ({ s with shared := q, evaluated := log }.setThread i l).total open_ + (s.threads i).open_
        = (log + q.queue + l.open_) + s.total open_ := by
          rw [add_assoc, moved, add_comm (({ s with shared := q, evaluated := log } : CheckThreads T W).total open_), ← add_assoc]
          rfl
      _ ≤ (s.evaluated + s.shared.queue + (s.threads i).open_) + s.total open_ := add_le_add_left once _
      _ = s.evaluated + s.shared.queue + s.total open_ + (s.threads i).open_ := by ac_rfl
  · intro off
    obtain ⟨_, _, outside, empty⟩ := core.closed off
    obtain ⟨todo, ok, master⟩ := closed off
    refine ⟨todo, ok, ?_, empty⟩
    by_cases at_ : none = i
    · rw [at_, setThread_self]
      exact master at_.symm
    · rw [setThread_ne _ at_]
      exact outside

omit [DecidableEq W] in
theorem Core.woken (core : Core eval s) (woken : s.WokenFrom t) : Core eval t := by
  have same : ∀ {M : Type} [AddCommMonoid M] (f : LoopState T → M), (∀ b, f (.waiting b) = f (.waiting true)) → t.total f = s.total f := by
    intro M _ f blind
    refine Finset.sum_congr rfl fun j _ => ?_
    rcases woken.threads j with same | ⟨b, before, after⟩
    · rw [same]
    · rw [before, after, blind b]
  have good : (∀ i, (t.threads i).Good eval) ↔ ∀ i, (s.threads i).Good eval := by
    refine forall_congr' fun j => ?_
    rcases woken.threads j with same | ⟨b, before, after⟩
    · rw [same]
    · rw [before, after]
      exact Iff.rfl
  have shared : t.shared = s.shared := by rw [woken.rest]
  have round : t.round = s.round := by rw [woken.rest]
  refine ⟨shared ▸ core.quit, ?_, ?_, ?_, ?_, ?_, ?_, ?_, ?_, ?_⟩
  · intro j n rest ok here
    rcases woken.threads j with same | ⟨b, before, after⟩
    · exact core.batches j n rest ok (same ▸ here)
    · rw [after] at here
      cases here
  · rw [shared, same nNow fun _ => rfl]
    exact core.todo
  · rw [shared, same waits fun _ => rfl]
    exact core.idle
  · rw [shared, same inLoop fun _ => rfl]
    exact core.running
  · rw [shared, round, good]
    exact core.verdict
  · have log : t.evaluated = s.evaluated := by rw [woken.rest]
    have added : t.added = s.added := by rw [woken.rest]
    rw [shared, log, added, same open_ fun _ => rfl]
    exact core.once
  · have control : t.control = s.control := by rw [woken.rest]
    rw [control, shared, round]
    intro closed
    obtain ⟨todo, fine, outside, empty⟩ := core.closed closed
    refine ⟨todo, fine, ?_, empty⟩
    rcases woken.threads none with same | ⟨b, before, _⟩
    · rw [same]
      exact outside
    · rw [outside] at before
      cases before
  · have returned : t.returned = s.returned := by rw [woken.rest]
    rw [returned]
    exact core.verdicts
  · have aborted : t.aborted = s.aborted := by rw [woken.rest]
    rw [aborted]
    exact core.asserted

omit [Fintype W] in
theorem enter_cases (entered : s.enter i = some t) :
    (s.threads i = .outside ∧ (i = none → s.control = true) ∧ t = { s with shared := s.shared.cleanUp 0 true }.setThread i .locked) ∨
    (∃ b, s.threads i = .waiting b ∧
      t = { s with shared := { s.shared with nIdle := s.shared.nIdle - 1 } }.setThread i .locked) ∨
    ∃ n ok, s.threads i = .executing n [] ok ∧
      (t = { s with shared := s.shared.cleanUp n ok }.setThread i .locked ∧
          ¬(n ≠ 0 ∧ (s.shared.cleanUp n ok).nTodo = 0 ∧ i.isSome = true) ∨
        t = ({ s with shared := s.shared.cleanUp n ok }.setThread i .locked).notify none) := by
  unfold enter at entered
  split at entered
  · rename_i outside
    split at entered
    · cases entered
    · rename_i may
      refine Or.inl ⟨outside, fun master => ?_, (Option.some.inj entered).symm⟩
      simpa [master] using may
  · rename_i b waiting
    exact Or.inr (Or.inl ⟨b, waiting, (Option.some.inj entered).symm⟩)
  · rename_i n ok executing
    refine Or.inr (Or.inr ⟨n, ok, executing, ?_⟩)
    obtain rfl := Option.some.inj entered
    split
    · exact Or.inr rfl
    · rename_i quiet
      exact Or.inl ⟨rfl, quiet⟩
  · cases entered

omit [DecidableEq W] in
theorem Core.busy (core : Core eval s) (executing : s.threads i = .executing n rest ok) : 0 < n ∧ n ≤ s.shared.nTodo := by
  have positive := (core.batches i n rest ok executing).1
  have part := le_total nNow s i
  have sum := core.todo
  rw [executing] at part
  simp only [nNow] at part
  omega

theorem Core.enter (core : Core eval s) (entered : s.enter i = some t) : Core eval t := by
  rcases enter_cases entered with ⟨outside, may, rfl⟩ | ⟨b, waiting, rfl⟩ | ⟨n, ok, executing, handed⟩
  · refine core.move (s.shared.cleanUp 0 true) s.evaluated core.quit nofun ?_ ?_ ?_ ?_ ?_ ?_
    · rw [outside]; rfl
    · rw [outside]; rfl
    · rw [outside]
      simp [CCheckQueue.cleanUp, inLoop]
    · rw [outside]; rfl
    · rw [outside]; rfl
    · intro closed
      obtain ⟨todo, fine, _, _⟩ := core.closed closed
      refine ⟨todo, fine, fun master => ?_⟩
      rw [may master] at closed
      cases closed
  · refine core.move { s.shared with nIdle := s.shared.nIdle - 1 } s.evaluated core.quit nofun ?_ ?_ ?_ ?_ ?_ ?_
    · rw [waiting]; rfl
    · rw [waiting]
      simp [waits]
    · rw [waiting]; rfl
    · rw [waiting]; rfl
    · rw [waiting]; rfl
    · intro closed
      obtain ⟨todo, fine, outside, _⟩ := core.closed closed
      refine ⟨todo, fine, fun master => ?_⟩
      rw [master, outside] at waiting
      cases waiting
  · obtain ⟨positive, part⟩ := core.busy executing
    have cleaned : s.shared.cleanUp n ok = { s.shared with fAllOk := s.shared.fAllOk && ok, nTodo := s.shared.nTodo - n } :=
      if_pos (by omega)
    have core' : Core eval ({ s with shared := s.shared.cleanUp n ok }.setThread i .locked) := by
      rw [cleaned]
      refine core.move { s.shared with fAllOk := s.shared.fAllOk && ok, nTodo := s.shared.nTodo - n } s.evaluated core.quit nofun
        ?_ ?_ ?_ ?_ ?_ ?_
      · rw [executing]
        simp only [nNow]
        omega
      · rw [executing]; rfl
      · rw [executing]; rfl
      · rw [executing]
        simp only [Good, Bool.and_eq_true, List.not_mem_nil, false_implies, implies_true, and_true]
        tauto
      · rw [executing]; rfl
      · intro closed
        have nothing := (core.closed closed).1
        omega
    rcases handed with ⟨rfl, _⟩ | rfl
    · exact core'
    · exact core'.woken (notify_woken _ _)

omit [Fintype W] in
theorem proceed_cases (s : CheckThreads T W) (i : Option W) (quit : s.shared.fQuit = false) :
    (i = none ∧ s.shared.queue = [] ∧ s.shared.nTodo = 0 ∧ s.proceed i =
      { { s with shared := { s.shared with nTotal := s.shared.nTotal - 1, fAllOk := true } }.setThread none .outside with
        control := false, round := 0, returned := (s.round, s.shared.fAllOk) :: s.returned }) ∨
    (s.shared.queue = [] ∧ (i = none → s.shared.nTodo ≠ 0) ∧
      s.proceed i = { s with shared := { s.shared with nIdle := s.shared.nIdle + 1 } }.setThread i (.waiting false)) ∨
    (s.shared.queue ≠ [] ∧ s.proceed i =
      { s with shared := { s.shared with queue := s.shared.queue.take (s.shared.queue.length - s.shared.batch) } }.setThread i
        (.executing s.shared.batch (s.shared.queue.drop (s.shared.queue.length - s.shared.batch)).reverse s.shared.fAllOk)) := by
  unfold proceed
  dsimp only
  by_cases empty : s.shared.queue = []
  · rw [if_pos (List.isEmpty_iff.mpr empty), quit, Bool.or_false]
    cases i with
    | none =>
      by_cases nothing : s.shared.nTodo = 0
      · rw [if_pos (by simp [nothing])]
        exact Or.inl ⟨rfl, empty, nothing, rfl⟩
      · rw [if_neg (by simp [nothing])]
        exact Or.inr (Or.inl ⟨empty, fun _ => nothing, by rfl⟩)
    | some w =>
      rw [if_neg (by simp)]
      exact Or.inr (Or.inl ⟨empty, nofun, by rfl⟩)
  · rw [if_neg (by simpa using empty)]
    exact Or.inr (Or.inr ⟨empty, rfl⟩)

omit [DecidableEq W] in
theorem Core.finish (core : Core eval s) (empty : s.shared.queue = []) (nothing : s.shared.nTodo = 0)
    (outside : s.threads none = .outside) : Core eval { s with
      shared := { s.shared with fAllOk := true }, control := false, round := 0, returned := (s.round, s.shared.fAllOk) :: s.returned } := by
  have idle : ∀ i, (s.threads i).Good eval := by
    intro i
    cases here : s.threads i with
    | executing n rest ok =>
      obtain ⟨positive, part⟩ := core.busy here
      omega
    | _ => trivial
  refine ⟨core.quit, core.batches, core.todo, core.idle, core.running, ?_, core.once, fun _ => ⟨nothing, rfl, outside, rfl⟩, ?_,
    core.asserted⟩
  · simp only [Multiset.notMem_zero, false_implies, implies_true, empty, List.not_mem_nil, true_and, true_iff]
    exact idle
  · refine List.forall_mem_cons.mpr ⟨?_, core.verdicts⟩
    have verdict := core.verdict
    rw [empty] at verdict
    simp only [List.not_mem_nil, false_implies, implies_true, idle, and_true] at verdict
    exact verdict.symm

theorem batch_bounds {q : CCheckQueue T} (some_ : q.queue ≠ []) : 0 < q.batch ∧ q.batch ≤ q.queue.length := by
  have length := List.length_pos_iff.mpr some_
  have share := Nat.div_le_self q.queue.length (q.nTotal + q.nIdle + 1).toNat
  unfold CCheckQueue.batch
  omega

theorem Core.proceed (core : Core eval s) (locked : s.threads i = .locked) : Core eval (s.proceed i) := by
  have open_ : i = none → s.control = true := by
    intro master
    by_contra off
    have outside := (core.closed (Bool.not_eq_true _ ▸ off)).2.2.1
    rw [master, outside] at locked
    cases locked
  rcases s.proceed_cases i core.quit with ⟨rfl, empty, nothing, after⟩ | ⟨empty, more, after⟩ | ⟨some_, after⟩
  · rw [after]
    have left : Core eval ({ s with shared := { s.shared with nTotal := s.shared.nTotal - 1 } }.setThread none .outside) := by
      refine core.move { s.shared with nTotal := s.shared.nTotal - 1 } s.evaluated core.quit nofun ?_ ?_ ?_ ?_ ?_ ?_
      · rw [locked]; rfl
      · rw [locked]; rfl
      · rw [locked]
        simp [inLoop]
      · rw [locked]; rfl
      · rw [locked]; rfl
      · intro closed
        rw [open_ rfl] at closed
        cases closed
    exact left.finish empty nothing (setThread_self _ _ _)
  · rw [after]
    refine core.move { s.shared with nIdle := s.shared.nIdle + 1 } s.evaluated core.quit nofun ?_ ?_ ?_ ?_ ?_ ?_
    · rw [locked]; rfl
    · rw [locked]
      simp [waits]
    · rw [locked]; rfl
    · rw [locked]; rfl
    · rw [locked]; rfl
    · intro closed
      obtain ⟨todo, fine, _, _⟩ := core.closed closed
      refine ⟨todo, fine, fun master => ?_⟩
      rw [open_ master] at closed
      cases closed
  · rw [after]
    obtain ⟨positive, within⟩ := batch_bounds some_
    have whole := List.take_append_drop (s.shared.queue.length - s.shared.batch) s.shared.queue
    refine core.move { s.shared with queue := s.shared.queue.take (s.shared.queue.length - s.shared.batch) } s.evaluated core.quit
      ?_ ?_ ?_ ?_ ?_ ?_ ?_
    · intro n rest ok taken
      injection taken with size rest_
      rw [← size, ← rest_, List.length_reverse, List.length_drop]
      exact ⟨positive, by omega⟩
    · rw [locked]
      simp only [nNow, List.length_take]
      omega
    · rw [locked]; rfl
    · rw [locked]; rfl
    · rw [locked]
      have members : (∀ c ∈ s.shared.queue, eval c = true) ↔
          (∀ c ∈ s.shared.queue.take (s.shared.queue.length - s.shared.batch), eval c = true) ∧
            ∀ c ∈ s.shared.queue.drop (s.shared.queue.length - s.shared.batch), eval c = true := by
        conv_lhs => rw [← whole]
        exact List.forall_mem_append
      simp only [Good, List.mem_reverse, members]
      tauto
    · rw [locked]
      have split : (s.shared.queue : Multiset T) = (s.shared.queue.take (s.shared.queue.length - s.shared.batch) : Multiset T) +
          (s.shared.queue.drop (s.shared.queue.length - s.shared.batch)).reverse := by
        rw [Multiset.coe_reverse, Multiset.coe_add, whole]
      simp only [LoopState.open_, add_zero]
      rw [split, add_assoc]
    · intro closed
      have nothing := (core.closed closed).1
      have counted := core.todo
      omega

omit [DecidableEq W] in
theorem Core.isIdle (core : Core eval s) (free : ∀ i, s.threads i ≠ .locked) (closed : s.control = false) :
    s.shared.isIdle = true := by
  obtain ⟨nothing, fine, _, _⟩ := core.closed closed
  have same : s.total inLoop = s.total waits := by
    refine Finset.sum_congr rfl fun i _ => ?_
    cases here : s.threads i with
    | executing n rest ok =>
      obtain ⟨positive, part⟩ := core.busy here
      omega
    | locked => exact absurd here (free i)
    | _ => rfl
  have idle := core.idle
  have running := core.running
  rw [same] at running
  simp [CCheckQueue.isIdle, nothing, fine, idle, running]

omit [DecidableEq W] in
theorem Core.push (core : Core eval s) (vChecks : List T) (alive : s.control = true) :
    Core eval (s.push vChecks) := by
  refine ⟨core.quit, core.batches, ?_, core.idle, core.running, ?_, ?_, fun closed => ?_, core.verdicts, core.asserted⟩
  · have before := core.todo
    show s.shared.nTodo + vChecks.length = (s.shared.queue ++ vChecks).length + s.total nNow
    rw [List.length_append]
    omega
  · have before := core.verdict
    show (∀ c ∈ s.round + vChecks, eval c = true) ↔
      s.shared.fAllOk = true ∧ (∀ c ∈ s.shared.queue ++ vChecks, eval c = true) ∧ ∀ i, (s.threads i).Good eval
    simp only [Multiset.mem_add, Multiset.mem_coe, or_imp, forall_and, List.mem_append, before]
    tauto
  · have before := core.once
    show s.evaluated + ((s.shared.queue ++ vChecks : List T) : Multiset T) + s.total LoopState.open_ ≤ s.added + vChecks
    calc s.evaluated + ((s.shared.queue ++ vChecks : List T) : Multiset T) + s.total LoopState.open_
        = s.evaluated + s.shared.queue + s.total LoopState.open_ + vChecks := by
          rw [← Multiset.coe_add]
          ac_rfl
      _ ≤ s.added + vChecks := add_le_add_left before _
  · have off : s.control = false := closed
    rw [alive] at off
    cases off

theorem Core.evaluate (core : Core eval s) {nNow : Nat} (executing : s.threads i = .executing nNow (check :: vChecks) fOk) :
    Core eval ({ s with evaluated := if fOk then check ::ₘ s.evaluated else s.evaluated }.setThread i
      (.executing nNow vChecks (if fOk then eval check else fOk))) := by
  obtain ⟨positive, within⟩ := core.batches i nNow _ fOk executing
  refine core.move s.shared (if fOk then check ::ₘ s.evaluated else s.evaluated) core.quit ?_ ?_ ?_ ?_ ?_ ?_ ?_
  · intro n rest ok same
    injection same with size rest_
    rw [← size, ← rest_]
    simp only [List.length_cons] at within
    exact ⟨positive, by omega⟩
  · rw [executing]; rfl
  · rw [executing]; rfl
  · rw [executing]; rfl
  · rw [executing]
    cases fOk <;> simp [Good]
  · have head : ((check :: vChecks : List T) : Multiset T) = check ::ₘ (vChecks : Multiset T) := rfl
    rw [executing]
    simp only [LoopState.open_]
    rw [head, Multiset.add_cons]
    cases fOk with
    | true => exact le_of_eq (by rw [if_pos rfl, Multiset.cons_add, Multiset.cons_add])
    | false => exact Multiset.le_cons_self _ _
  · intro closed
    have busy := core.busy executing
    have nothing := (core.closed closed).1
    omega

end CheckThreads

end SchillingCoin
