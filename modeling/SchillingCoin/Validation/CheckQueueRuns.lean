import SchillingCoin.Validation.CheckQueue

/-!
Runs of the threads on a check queue: every `Wait` returns what the checks give one after another, unless threads wake by themselves
without end.
-/

namespace SchillingCoin

namespace CheckThreads

open LoopState

variable {T W : Type} [DecidableEq W] [Fintype W] {eval : T → Bool}

def Awake (s : CheckThreads T W) : Prop :=
  ∀ b, s.threads none = .waiting b → s.shared.queue = [] ∧ (b = false → s.shared.nTodo ≠ 0)

def Free (s : CheckThreads T W) : Prop := ∀ i, s.threads i ≠ .locked

structure Inv (eval : T → Bool) (s : CheckThreads T W) : Prop where
  core : Core eval s
  awake : s.Awake
  free : s.Free

variable {s t : CheckThreads T W} {i : Option W}

omit [Fintype W] [DecidableEq W] in
theorem Awake.woken (awake : s.Awake) (woken : s.WokenFrom t) : t.Awake := by
  intro b here
  have shared : t.shared = s.shared := by rw [woken.rest]
  rw [shared]
  rcases woken.threads none with same | ⟨b', before, after⟩
  · rw [same] at here
    exact awake b here
  · rw [after] at here
    injection here with told
    exact ⟨(awake b' before).1, fun asleep => by rw [← told] at asleep; cases asleep⟩

omit [Fintype W] [DecidableEq W] in
theorem Free.woken (free : s.Free) (woken : s.WokenFrom t) : t.Free := by
  intro j
  rcases woken.threads j with same | ⟨_, _, after⟩
  · rw [same]
    exact free j
  · rw [after]
    nofun

theorem enter_state (inv : Inv eval s) (entered : s.enter i = some t) :
    t.threads i = .locked ∧ (∀ j, j ≠ i → t.threads j ≠ .locked) ∧ t.Awake := by
  have others : ∀ (q : CCheckQueue T) j, j ≠ i → ({ s with shared := q }.setThread i .locked).threads j ≠ .locked := by
    intro q j other
    rw [setThread_ne _ other]
    exact inv.free j
  have awake : ∀ q : CCheckQueue T, q.queue = s.shared.queue → (i = none ∨ q.nTodo = s.shared.nTodo) →
      ({ s with shared := q }.setThread i .locked).Awake := by
    intro q queue kept b here
    by_cases master : none = i
    · rw [master, setThread_self] at here
      cases here
    · rw [setThread_ne _ master] at here
      obtain ⟨empty, more⟩ := inv.awake b here
      have same := kept.resolve_left fun none_ => master none_.symm
      exact ⟨queue.trans empty, fun asleep => by show q.nTodo ≠ 0; rw [same]; exact more asleep⟩
  rcases enter_cases entered with ⟨_, _, rfl⟩ | ⟨_, _, rfl⟩ | ⟨n, ok, executing, handed⟩
  · exact ⟨setThread_self _ _ _, others _, awake _ rfl (Or.inr rfl)⟩
  · exact ⟨setThread_self _ _ _, others _, awake _ rfl (Or.inr rfl)⟩
  · obtain ⟨positive, part⟩ := inv.core.busy executing
    have cleaned : s.shared.cleanUp n ok = { s.shared with fAllOk := s.shared.fAllOk && ok, nTodo := s.shared.nTodo - n } :=
      if_pos (by omega)
    rcases handed with ⟨rfl, quiet⟩ | rfl
    · refine ⟨setThread_self _ _ _, others _, ?_⟩
      by_cases master : i = none
      · exact awake _ (by rw [cleaned]) (Or.inl master)
      · -- the worker did not notify the master, so that something is left to do
        have left : (s.shared.cleanUp n ok).nTodo ≠ 0 := by
          intro nothing
          exact quiet ⟨by omega, nothing, Option.isSome_iff_ne_none.mpr master⟩
        intro b here
        rw [setThread_ne _ (Ne.symm master)] at here
        have empty := (inv.awake b here).1
        refine ⟨?_, fun _ => left⟩
        show (s.shared.cleanUp n ok).queue = []
        rw [cleaned]
        exact empty
    · refine ⟨?_, fun j other => ?_, fun b here => ?_⟩
      · rcases (notify_woken ({ s with shared := s.shared.cleanUp n ok }.setThread i .locked) none).threads i with same | ⟨_, before, _⟩
        · rw [same, setThread_self]
        · rw [setThread_self] at before
          cases before
      · rcases (notify_woken ({ s with shared := s.shared.cleanUp n ok }.setThread i .locked) none).threads j with same | ⟨_, _, after⟩
        · rw [same]
          exact others _ j other
        · rw [after]
          nofun
      · have shared : (({ s with shared := s.shared.cleanUp n ok }.setThread i .locked).notify none).shared = s.shared.cleanUp n ok := by
          rw [(notify_woken _ _).rest]
          rfl
        rw [shared, cleaned]
        unfold CheckThreads.notify at here
        split at here
        · rename_i b' waiting
          rw [setThread_self] at here
          injection here with told
          have master : none ≠ i := by
            intro same
            rw [same, setThread_self] at waiting
            cases waiting
          rw [setThread_ne _ master] at waiting
          exact ⟨(inv.awake b' waiting).1, fun asleep => by rw [← told] at asleep; cases asleep⟩
        · rename_i sleepless
          exact absurd here (sleepless b)

theorem Inv.pass (inv : Inv eval s) (entered : s.enter i = some t) : Inv eval (t.proceed i) := by
  obtain ⟨locked, others, awake⟩ := enter_state inv entered
  have core := inv.core.enter entered
  refine ⟨core.proceed locked, ?_, ?_⟩
  · intro b here
    rcases t.proceed_cases i core.quit with ⟨rfl, _, _, after⟩ | ⟨empty, more, after⟩ | ⟨some_, after⟩
    · rw [after] at here
      have outside := setThread_self { t with shared := { t.shared with nTotal := t.shared.nTotal - 1, fAllOk := true } } none .outside
      have outside' := outside.symm.trans here
      cases outside'
    · rw [after] at here ⊢
      by_cases master : none = i
      · exact ⟨empty, fun _ => more master.symm⟩
      · rw [setThread_ne _ master] at here
        exact awake b here
    · rw [after] at here
      by_cases master : none = i
      · rw [master, setThread_self] at here
        cases here
      · rw [setThread_ne _ master] at here
        exact absurd (awake b here).1 some_
  · intro j
    rcases t.proceed_cases i core.quit with ⟨rfl, _, _, after⟩ | ⟨_, _, after⟩ | ⟨_, after⟩
    · rw [after]
      show ({ t with shared := { t.shared with nTotal := t.shared.nTotal - 1, fAllOk := true } }.setThread none .outside).threads j ≠ _
      by_cases at_ : j = none
      · rw [at_, setThread_self]
        nofun
      · rw [setThread_ne _ at_]
        exact others j at_
    · rw [after]
      by_cases at_ : j = i
      · rw [at_, setThread_self]
        nofun
      · rw [setThread_ne _ at_]
        exact others j at_
    · rw [after]
      by_cases at_ : j = i
      · rw [at_, setThread_self]
        nofun
      · rw [setThread_ne _ at_]
        exact others j at_

omit [Fintype W] [DecidableEq W] in
theorem notifyAll_woken (s : CheckThreads T W) : s.WokenFrom s.notifyAll := by
  refine ⟨rfl, fun j => ?_⟩
  cases j with
  | none => exact Or.inl rfl
  | some w =>
    cases here : s.threads (some w) with
    | waiting b => exact Or.inr ⟨b, rfl, by simp [notifyAll, here]⟩
    | _ => exact Or.inl (by simp [notifyAll, here])

omit [DecidableEq W] in
theorem Inv.woken (inv : Inv eval s) (woken : s.WokenFrom t) : Inv eval t :=
  ⟨inv.core.woken woken, inv.awake.woken woken, inv.free.woken woken⟩

omit [DecidableEq W] in
theorem Inv.construct (inv : Inv eval s) (step : s.construct = some t) : Inv eval t := by
  unfold CheckThreads.construct at step
  split at step
  · rename_i outside closed
    rw [if_pos (inv.core.isIdle inv.free closed)] at step
    obtain rfl := Option.some.inj step
    obtain ⟨quit, batches, todo, idle, running, verdict, once, _, verdicts, asserted⟩ := inv.core
    exact ⟨⟨quit, batches, todo, idle, running, verdict, once, nofun, verdicts, asserted⟩, inv.awake, inv.free⟩
  · cases step

theorem Inv.add (inv : Inv eval s) {woken : W} (step : s.add vChecks woken = some t) : Inv eval t := by
  unfold CheckThreads.add at step
  split at step
  · rename_i outside alive
    have pushed : Inv eval (s.push vChecks) := by
      refine ⟨inv.core.push vChecks alive, fun b here => ?_, inv.free⟩
      have absent := outside.symm.trans here
      cases absent
    obtain rfl := Option.some.inj step
    split
    · exact pushed.woken (notify_woken _ _)
    · split
      · exact pushed.woken (notifyAll_woken _)
      · exact pushed
  · cases step

theorem Inv.evaluate (inv : Inv eval s) (step : s.evaluate eval i = some t) : Inv eval t := by
  unfold CheckThreads.evaluate at step
  split at step
  · rename_i n check vChecks ok executing
    obtain rfl := Option.some.inj step
    refine ⟨inv.core.evaluate executing, fun b here => ?_, fun j => ?_⟩
    · by_cases master : none = i
      · rw [master, setThread_self] at here
        cases here
      · rw [setThread_ne _ master] at here
        exact inv.awake b here
    · by_cases at_ : j = i
      · rw [at_, setThread_self]
        nofun
      · rw [setThread_ne _ at_]
        exact inv.free j
  · cases step

theorem Inv.next (inv : Inv eval s) (step : next eval s event = some t) : Inv eval t := by
  cases event with
  | construct => exact inv.construct step
  | add vChecks woken => exact inv.add step
  | pass i =>
    obtain ⟨mid, entered, rfl⟩ := Option.map_eq_some_iff.mp step
    exact inv.pass entered
  | evaluate i => exact inv.evaluate step

theorem Inv.foldlM {events : List (Event T W)} (inv : Inv eval s)
    (run : events.foldlM (CheckThreads.next eval) s = some t) : Inv eval t := by
  induction events generalizing s with
  | nil =>
    obtain rfl := Option.some.inj run
    exact inv
  | cons event rest ih =>
    obtain ⟨mid, step, run⟩ := Option.bind_eq_some_iff.mp run
    exact ih (inv.next step) run

theorem inv_run (reached : run eval nBatchSize events = some s) : Inv eval s :=
  Inv.foldlM ⟨core_start nBatchSize, nofun, nofun⟩ reached

end CheckThreads

def LoopState.weight {T : Type} : LoopState T → Nat
  | .outside => 1
  | .waiting notified => notified.toNat
  | .locked => 0
  | .executing nNow vChecks _ => 2 * nNow + 2 * vChecks.length

namespace CheckThreads

open LoopState

variable {T W : Type} [DecidableEq W] [Fintype W] {eval : T → Bool}

def work (s : CheckThreads T W) : Nat := 4 * s.shared.queue.length + s.total weight

def Spurious (s : CheckThreads T W) (event : Event T W) : Prop := ∃ i, event = .pass i ∧ s.threads i = .waiting false

variable {s t : CheckThreads T W} {i : Option W}

theorem work_moved (queue : List T) (changed : t = { s with shared := q, evaluated := log }.setThread i l)
    (left : q.queue = queue) (before : s.threads i = old) :
    t.work + 4 * s.shared.queue.length + old.weight = s.work + 4 * queue.length + l.weight := by
  have moved := total_setThread weight { s with shared := q, evaluated := log } i l
  have same : ({ s with shared := q, evaluated := log } : CheckThreads T W).total weight = s.total weight := rfl
  have here : ({ s with shared := q, evaluated := log } : CheckThreads T W).threads i = old := before
  have shared : t.shared.queue = queue := by rw [changed, ← left]; rfl
  rw [same, ← changed, here] at moved
  unfold work
  rw [shared]
  omega

theorem work_notify (s : CheckThreads T W) (i : Option W) : (s.notify i).work ≤ s.work + 1 := by
  unfold notify
  split
  · rename_i b waiting
    have moved := work_moved (t := s.setThread i (.waiting true)) (q := s.shared) s.shared.queue rfl rfl waiting
    have one : (LoopState.waiting true : LoopState T).weight = 1 := rfl
    omega
  · omega

theorem work_enter (core : Core eval s) (entered : s.enter i = some t) (told : s.threads i ≠ .waiting false) :
    t.work < s.work := by
  have none_ : (locked : LoopState T).weight = 0 := rfl
  rcases enter_cases entered with ⟨outside, _, changed⟩ | ⟨b, waiting, changed⟩ | ⟨n, ok, executing, handed⟩
  · have moved := work_moved s.shared.queue changed rfl outside
    have one : (LoopState.outside : LoopState T).weight = 1 := rfl
    omega
  · have moved := work_moved s.shared.queue changed rfl waiting
    cases b with
    | false => exact absurd waiting told
    | true =>
      have one : (LoopState.waiting true : LoopState T).weight = 1 := rfl
      omega
  · obtain ⟨positive, _⟩ := core.busy executing
    have queue : (s.shared.cleanUp n ok).queue = s.shared.queue := by
      unfold CCheckQueue.cleanUp
      split <;> rfl
    have batch : (LoopState.executing n ([] : List T) ok).weight = 2 * n + 0 := rfl
    rcases handed with ⟨changed, _⟩ | changed
    · have moved := work_moved s.shared.queue changed queue executing
      omega
    · have moved := work_moved (t := { s with shared := s.shared.cleanUp n ok }.setThread i .locked) s.shared.queue rfl queue executing
      have told := work_notify ({ s with shared := s.shared.cleanUp n ok }.setThread i .locked) none
      rw [← changed] at told
      omega

theorem work_proceed (core : Core eval s) (held : s.threads i = .locked) :
    (s.proceed i).threads none = .outside ∨ (s.proceed i).work ≤ s.work := by
  have none_ : (locked : LoopState T).weight = 0 := rfl
  rcases s.proceed_cases i core.quit with ⟨rfl, _, _, after⟩ | ⟨_, _, after⟩ | ⟨some_, after⟩
  · left
    rw [after]
    exact setThread_self { s with shared := { s.shared with nTotal := s.shared.nTotal - 1, fAllOk := true } } none .outside
  · right
    have moved := work_moved s.shared.queue after rfl held
    have asleep : (LoopState.waiting false : LoopState T).weight = 0 := rfl
    omega
  · right
    obtain ⟨positive, within⟩ := batch_bounds some_
    have moved := work_moved (s.shared.queue.take (s.shared.queue.length - s.shared.batch)) after rfl held
    simp only [weight, List.length_reverse, List.length_drop, List.length_take] at moved
    omega

theorem work_next (inv : Inv eval s) (waiting : s.threads none ≠ .outside) (proper : ¬s.Spurious event)
    (step : next eval s event = some t) : t.threads none = .outside ∨ t.work < s.work := by
  cases event with
  | construct =>
    have constructed : s.construct = some t := step
    unfold construct at constructed
    split at constructed
    · rename_i outside _
      exact absurd outside waiting
    · cases constructed
  | add vChecks woken =>
    have added : s.add vChecks woken = some t := step
    unfold add at added
    split at added
    · rename_i outside _
      exact absurd outside waiting
    · cases added
  | pass i =>
    obtain ⟨mid, entered, rfl⟩ := Option.map_eq_some_iff.mp step
    have lower := work_enter inv.core entered fun asleep => proper ⟨i, rfl, asleep⟩
    rcases work_proceed (inv.core.enter entered) (enter_state inv entered).1 with returned | less
    · exact Or.inl returned
    · exact Or.inr (Nat.lt_of_le_of_lt less lower)
  | evaluate i =>
    have evaluated : s.evaluate eval i = some t := step
    unfold evaluate at evaluated
    split at evaluated
    · rename_i n check vChecks ok executing
      obtain rfl := Option.some.inj evaluated
      right
      have moved := work_moved (t := { s with evaluated := if ok then check ::ₘ s.evaluated else s.evaluated }.setThread i
        (.executing n vChecks (if ok then eval check else ok))) s.shared.queue rfl rfl executing
      simp only [weight, List.length_cons] at moved
      omega
    · cases evaluated

theorem step_possible (inv : Inv eval s) (waiting : s.threads none ≠ .outside) :
    ∃ event t, ¬s.Spurious event ∧ next eval s event = some t := by
  have working : ∀ i n rest ok, s.threads i = .executing n rest ok → ∃ event t, ¬s.Spurious event ∧ next eval s event = some t := by
    intro i n rest ok executing
    cases rest with
    | nil =>
      have enters : ∃ t, s.enter i = some t := by
        unfold enter
        rw [executing]
        exact ⟨_, rfl⟩
      obtain ⟨t, entered⟩ := enters
      refine ⟨.pass i, t.proceed i, ?_, by simp [next, entered]⟩
      rintro ⟨j, same, asleep⟩
      injection same with same
      rw [← same, executing] at asleep
      cases asleep
    | cons check rest =>
      have evaluates : ∃ t, s.evaluate eval i = some t := by
        unfold evaluate
        rw [executing]
        exact ⟨_, rfl⟩
      obtain ⟨t, evaluated⟩ := evaluates
      refine ⟨.evaluate i, t, ?_, evaluated⟩
      rintro ⟨j, same, _⟩
      cases same
  cases master : s.threads none with
  | outside => exact absurd master waiting
  | locked => exact absurd master (inv.free none)
  | executing n rest ok => exact working none n rest ok master
  | waiting b =>
    cases b with
    | true =>
      have enters : ∃ t, s.enter none = some t := by
        unfold enter
        rw [master]
        exact ⟨_, rfl⟩
      obtain ⟨t, entered⟩ := enters
      refine ⟨.pass none, t.proceed none, ?_, by simp [next, entered]⟩
      rintro ⟨j, same, asleep⟩
      injection same with same
      rw [← same, master] at asleep
      cases asleep
    | false =>
      -- nobody has told the master, so that a worker still holds a batch
      obtain ⟨empty, more⟩ := inv.awake false master
      have left := more rfl
      have counted := inv.core.todo
      rw [empty, List.length_nil, Nat.zero_add] at counted
      have somebody : ∃ i, (s.threads i).nNow ≠ 0 := by
        by_contra nobody
        push Not at nobody
        exact left (counted.trans (Finset.sum_eq_zero fun i _ => nobody i))
      obtain ⟨i, holds⟩ := somebody
      cases here : s.threads i with
      | executing n rest ok => exact working i n rest ok here
      | _ =>
        rw [here] at holds
        exact absurd rfl holds

theorem wait_returns (inv : Inv eval s) (path : Nat → CheckThreads T W) (start : path 0 = s)
    (steps : ∀ n, ∃ event, ¬(path n).Spurious event ∧ next eval (path n) event = some (path (n + 1))) :
    ∃ n, (path n).threads none = .outside := by
  by_contra never
  push Not at never
  have down : ∀ n, Inv eval (path n) ∧ (path n).work + n ≤ s.work := by
    intro n
    induction n with
    | zero => exact ⟨start ▸ inv, by rw [start]; omega⟩
    | succ n ih =>
      obtain ⟨inv_, bound⟩ := ih
      obtain ⟨event, proper, step⟩ := steps n
      have lower := (work_next inv_ (never n) proper step).resolve_left (never (n + 1))
      exact ⟨inv_.next step, by omega⟩
  have last := (down (s.work + 1)).2
  omega

omit [DecidableEq W] in
theorem Core.executing_count (core : Core eval s) (free : s.Free) :
    s.shared.nTotal - s.shared.nIdle = (s.total executes : Nat) := by
  have parts : s.total inLoop = s.total waits + s.total executes := by
    unfold total
    rw [← Finset.sum_add_distrib]
    refine Finset.sum_congr rfl fun i _ => ?_
    cases here : s.threads i with
    | locked => exact absurd here (free i)
    | _ => rfl
  have idle := core.idle
  have running := core.running
  omega

/-- Every `Wait` returns, unless threads wake by themselves without end, and its verdict is that of the checks one after another. -/
theorem parallel_checks_sequential {nBatchSize : Nat} {events : List (Event T W)} {s : CheckThreads T W}
    (reached : run eval nBatchSize events = some s) :
    (∀ r ∈ s.returned, r.2 = true ↔ ∀ c ∈ r.1, eval c = true) ∧ s.evaluated ≤ s.added ∧
      (s.control = false → s.shared.queue = [] ∧ s.shared.nTodo = 0 ∧ s.shared.fAllOk = true ∧ s.shared.isIdle = true) ∧
      s.shared.nTotal - s.shared.nIdle = (s.total executes : Nat) ∧ s.aborted = false ∧
      (s.threads none ≠ .outside → (∃ event t, ¬s.Spurious event ∧ next eval s event = some t) ∧
        ∀ path : Nat → CheckThreads T W, path 0 = s →
          (∀ n, ∃ event, ¬(path n).Spurious event ∧ next eval (path n) event = some (path (n + 1))) →
          ∃ n, (path n).threads none = .outside) := by
  have inv := inv_run reached
  refine ⟨inv.core.verdicts, ?_, fun closed => ?_, inv.core.executing_count inv.free, inv.core.asserted, fun waiting => ?_⟩
  · have part : s.evaluated ≤ s.evaluated + s.shared.queue + s.total LoopState.open_ := by
      rw [add_assoc]
      exact Multiset.le_add_right _ _
    exact le_trans part inv.core.once
  · obtain ⟨nothing, fine, _, _⟩ := inv.core.closed closed
    have counted := inv.core.todo
    exact ⟨List.length_eq_zero_iff.mp (by omega), nothing, fine, inv.core.isIdle inv.free closed⟩
  · exact ⟨step_possible inv waiting, fun path start steps => wait_returns inv path start steps⟩

theorem failing_check_reported : ∃ s : CheckThreads Bool Unit,
    run id 128 [.pass (some ()), .construct, .add [true, false] (), .pass (some ()), .pass none, .evaluate none, .evaluate (some ()),
      .pass none, .pass (some ()), .pass none] = some s ∧
      s.returned.map Prod.snd = [false] ∧ s.evaluated ≤ s.added ∧ s.aborted = false := by
  have verdict : (run id 128 [.pass (some ()), .construct, .add [true, false] (), .pass (some ()), .pass none, .evaluate none,
      .evaluate (some ()), .pass none, .pass (some ()), .pass none] : Option (CheckThreads Bool Unit)).map
        (fun s => s.returned.map Prod.snd) = some [false] := by decide
  obtain ⟨s, reached, returned⟩ := Option.map_eq_some_iff.mp verdict
  obtain ⟨_, once, _, _, asserted, _⟩ := parallel_checks_sequential reached
  exact ⟨s, reached, returned, once, asserted⟩

end CheckThreads

end SchillingCoin
