import Mathlib.Data.Finset.Max
import Mathlib.Data.List.TakeWhile
import SchillingCoin.Lib.StdMap

/-!
Votes on items that may arrive before their items. A vote is taken once, by its hash. A vote on an unknown item
waits under the item, one for each item; a vote on a known item replaces the voter's older vote when enough time
lies between them.
-/

namespace Ballot

structure Rules (I K H P V : Type) where
  item : V → I
  voter : V → K
  time : V → Int
  hash : V → H
  votes : P → StdMap K V
  setVotes : P → StdMap K V → P
  gap : Int
  ahead : Int

inductive Refusal where
  | unknownItem
  | older
  | tooSoon
  | tooFarAhead
  deriving DecidableEq, Repr

/-- Items with their votes, what has been seen, and the vote that waits for an unknown item. -/
structure Book (I K H P V : Type) where
  items : StdMap I P
  seenItems : StdMap I P
  seenVotes : StdMap H V
  orphans : StdMap I V

variable {I K H P V : Type} [DecidableEq I] [DecidableEq K] [DecidableEq H]

variable (r : Rules I K H P V) (i : I)

/-- The votes with one more, or why it is refused. -/
def addOrUpdate (now : Int) (votes : StdMap K V) (v : V) : Except Refusal (StdMap K V) :=
  let inserted := if r.time v > now + r.ahead then .error .tooFarAhead else .ok (votes.insert (r.voter v) v)
  match votes.lookup (r.voter v) with
  | none => inserted
  | some old =>
    if r.time old > r.time v then .error .older
    else if r.time v - r.time old < r.gap then .error .tooSoon
    else inserted

def update (now : Int) (b : Book I K H P V) (v : V) : Except Refusal (Book I K H P V) :=
  match b.items.lookup (r.item v) with
  | none => .error .unknownItem
  | some p => (addOrUpdate r now (r.votes p) v).map fun votes =>
    { b with items := b.items.insert (r.item v) (r.setVotes p votes) }

/-- One pass over the votes that wait: the vote is dropped once it is counted. -/
def retryOne (now : Int) (b : Book I K H P V) (i : I) (v : V) : Book I K H P V :=
  match update r now b v with
  | .ok b' => { b' with orphans := b'.orphans.erase i }
  | .error _ => b

def retry (now : Int) (b : Book I K H P V) : Book I K H P V :=
  b.orphans.entries.foldl (fun b e => retryOne r now b e.1 e.2) b

/-- Counts a vote, or lets it wait in place of an earlier one when its item is unknown. -/
def deliver (now : Int) (b : Book I K H P V) (v : V) : Book I K H P V :=
  match b.items.lookup (r.item v) with
  | none => { b with orphans := b.orphans.insert (r.item v) v }
  | some _ => match update r now b v with
    | .ok b' => b'
    | .error _ => b

def cast (now : Int) (b : Book I K H P V) (v : V) : Book I K H P V :=
  if (b.seenVotes.lookup (r.hash v)).isSome then b
  else deliver r now { b with seenVotes := b.seenVotes.insert (r.hash v) v } v

def register (now : Int) (b : Book I K H P V) (i : I) (p : P) : Book I K H P V :=
  if (b.seenItems.lookup i).isSome then b
  else retry r now { b with
    seenItems := b.seenItems.insert i p
    items := if (b.items.lookup i).isSome then b.items else b.items.insert i p }

inductive Op (I P V : Type) where
  | register (now : Int) (i : I) (p : P)
  | cast (now : Int) (v : V)
  | retry (now : Int)

def empty : Book I K H P V := ⟨∅, ∅, ∅, ∅⟩

namespace Op

def now : Op I P V → Int
  | .register now _ _ => now
  | .cast now _ => now
  | .retry now => now

def vote? : Op I P V → Option V
  | .cast _ v => some v
  | _ => none

def item? : Op I P V → Option I
  | .register _ i _ => some i
  | _ => none

end Op

def delivered (ops : List (Op I P V)) : List V := ops.filterMap Op.vote?

def Registered (ops : List (Op I P V)) (i : I) : Prop := i ∈ ops.filterMap Op.item?

instance (ops : List (Op I P V)) (i : I) : Decidable (Registered ops i) :=
  inferInstanceAs (Decidable (i ∈ ops.filterMap Op.item?))

/-- The votes on an item that are delivered before it. -/
def votesBefore (ops : List (Op I P V)) : List V :=
  (delivered (ops.takeWhile fun op => op.item? ≠ some i)).filter fun v => r.item v = i

variable [DecidableEq V]

/-- The vote that waits for the item when it is delivered: the last new one before it. -/
def waiting (ops : List (Op I P V)) : Option V := (votesBefore r i ops).eraseDups.getLast?

/-- The vote is the last of its voter on the item, by its time. -/
def Latest (ops : List (Op I P V)) (i : I) (v : V) : Prop :=
  v ∈ delivered ops ∧ r.item v = i ∧
    ∀ w ∈ delivered ops, r.item w = i → r.voter w = r.voter v → r.time w ≤ r.time v

/-- The votes that are counted: the one that waited, and those delivered only after the item. -/
def Counted (ops : List (Op I P V)) (i : I) (v : V) : Prop :=
  waiting r i ops = some v ∨ (v ∈ delivered ops ∧ r.item v = i ∧ v ∉ votesBefore r i ops)

omit [DecidableEq K] [DecidableEq H] [DecidableEq V] in
theorem votesBefore_append (ops : List (Op I P V)) (op : Op I P V) :
    (Registered ops i → votesBefore r i (ops ++ [op]) = votesBefore r i ops) ∧
    (¬Registered ops i → votesBefore r i (ops ++ [op]) =
      votesBefore r i ops ++ (op.vote?.toList.filter fun v => r.item v = i)) := by
  unfold votesBefore Registered
  constructor
  · intro registered
    obtain ⟨reg, member, own⟩ := List.mem_filterMap.mp registered
    rw [List.takeWhile_append, if_neg]
    intro whole
    have same : ops.takeWhile (fun op => op.item? ≠ some i) = ops := (List.takeWhile_prefix _).eq_of_length whole
    have passes := List.mem_takeWhile_imp (same ▸ member)
    simp [own] at passes
  · intro unregistered
    have all_ : ∀ o ∈ ops, (fun op : Op I P V => decide (op.item? ≠ some i)) o = true := by
      intro o member
      simp only [decide_eq_true_eq]
      exact fun own => unregistered (List.mem_filterMap.mpr ⟨o, member, own⟩)
    have whole : ops.takeWhile (fun op => op.item? ≠ some i) = ops := List.takeWhile_eq_self_iff.mpr all_
    rw [List.takeWhile_append_of_pos all_, whole]
    unfold delivered
    rw [List.filterMap_append, List.filter_append]
    congr 2
    cases op with
    | register now j p => by_cases own : j = i <;> simp [List.takeWhile, Op.item?, Op.vote?, own]
    | cast now v => simp [List.takeWhile, Op.item?, Op.vote?]
    | retry now => simp [List.takeWhile, Op.item?, Op.vote?]

omit [DecidableEq K] [DecidableEq H] in
theorem eraseDups_append_singleton (l : List V) (v : V) :
    (l ++ [v]).eraseDups = if v ∈ l then l.eraseDups else l.eraseDups ++ [v] := by
  rw [List.eraseDups_append]
  by_cases member : v ∈ l
  · simp [member, List.removeAll]
  · simp [member, List.removeAll, List.eraseDups_cons]

section Deliveries

omit [DecidableEq I] [DecidableEq K] [DecidableEq H] [DecidableEq V]

theorem delivered_append (ops : List (Op I P V)) (op : Op I P V) :
    delivered (ops ++ [op]) = delivered ops ++ op.vote?.toList := by
  unfold delivered
  rw [List.filterMap_append]
  cases op <;> rfl

theorem registered_append (ops : List (Op I P V)) (op : Op I P V) (i : I) :
    Registered (ops ++ [op]) i ↔ Registered ops i ∨ op.item? = some i := by
  unfold Registered
  rw [List.filterMap_append, List.mem_append]
  cases op <;> simp [Op.item?, eq_comm]

end Deliveries

section Waiting

variable (r : Rules I K H P V)

variable {i : I} {ops : List (Op I P V)} {v : V}

omit [DecidableEq K] [DecidableEq H] [DecidableEq V] in
theorem mem_votesBefore (member : v ∈ votesBefore r i ops) : v ∈ delivered ops ∧ r.item v = i := by
  obtain ⟨before, own⟩ := List.mem_filter.mp member
  obtain ⟨op, listed, votes⟩ := List.mem_filterMap.mp before
  exact ⟨List.mem_filterMap.mpr ⟨op, (List.takeWhile_prefix _).subset listed, votes⟩, by simpa using own⟩

omit [DecidableEq K] [DecidableEq H] [DecidableEq V] in
theorem mem_votesBefore_of_unregistered (unregistered : ¬Registered ops i) (member : v ∈ delivered ops)
    (own : r.item v = i) : v ∈ votesBefore r i ops := by
  have all_ : ∀ o ∈ ops, (fun op : Op I P V => decide (op.item? ≠ some i)) o = true := by
    intro o listed
    simp only [decide_eq_true_eq]
    exact fun mine => unregistered (List.mem_filterMap.mpr ⟨o, listed, mine⟩)
  unfold votesBefore
  rw [List.takeWhile_eq_self_iff.mpr all_]
  exact List.mem_filter.mpr ⟨member, by simpa using own⟩

omit [DecidableEq K] [DecidableEq H] in
theorem mem_of_waiting (waits : waiting r i ops = some v) : v ∈ votesBefore r i ops :=
  List.mem_eraseDups.mp (List.mem_of_getLast? waits)

omit [DecidableEq K] [DecidableEq H] in
theorem waiting_append (i : I) (ops : List (Op I P V)) (op : Op I P V) :
    waiting r i (ops ++ [op]) = match op.vote? with
      | none => waiting r i ops
      | some v => if r.item v = i ∧ ¬Registered ops i ∧ v ∉ delivered ops then some v else waiting r i ops := by
  unfold waiting
  obtain ⟨late, early⟩ := votesBefore_append r i ops op
  by_cases registered : Registered ops i
  · rw [late registered]
    cases op.vote? with
    | none => rfl
    | some v => simp [registered]
  · rw [early registered]
    cases op.vote? with
    | none => simp
    | some v =>
      by_cases own : r.item v = i
      · simp only [Option.toList_some, List.filter_cons, own, decide_true, if_true, List.filter_nil,
          eraseDups_append_singleton, registered, not_false_eq_true, true_and]
        by_cases seen : v ∈ delivered ops
        · rw [if_pos (mem_votesBefore_of_unregistered r registered seen own), if_neg (not_not.mpr seen)]
        · rw [if_neg fun before => seen (mem_votesBefore r before).1, if_pos seen]
          simp
      · simp [own]

end Waiting

section Counting

variable (r : Rules I K H P V)

variable {now : Int}

omit [DecidableEq I] [DecidableEq H] [DecidableEq V] in
theorem addOrUpdate_new (absent : votes.lookup (r.voter v) = none) (time : r.time v ≤ now + r.ahead) :
    addOrUpdate r now votes v = .ok (votes.insert (r.voter v) v) := by
  unfold addOrUpdate
  simp only [absent]
  exact if_neg (by omega)

omit [DecidableEq H] [DecidableEq V] in
theorem update_unknown (unknown : b.items.lookup (r.item v) = none) : update r now b v = .error .unknownItem := by
  rw [update, unknown]

omit [DecidableEq H] [DecidableEq V] in
theorem retryOne_idle (l : List (Sigma fun _ : I => V)) (b : Book I K H P V)
    (unknown : ∀ e ∈ l, b.items.lookup (r.item e.2) = none) :
    l.foldl (fun b e => retryOne r now b e.1 e.2) b = b := by
  induction l with
  | nil => rfl
  | cons e l ih =>
    have same : retryOne r now b e.1 e.2 = b := by rw [retryOne, update_unknown r (unknown e List.mem_cons_self)]
    rw [List.foldl_cons, same]
    exact ih fun e' member => unknown e' (List.mem_cons_of_mem e member)

omit [DecidableEq H] [DecidableEq V] in
theorem retry_single (now : Int) {b : Book I K H P V} {i : I}
    (keyed : ∀ j v, b.orphans.lookup j = some v → r.item v = j)
    (unknown : ∀ j v, b.orphans.lookup j = some v → j ≠ i → b.items.lookup j = none) :
    retry r now b = match b.orphans.lookup i with
      | none => b
      | some v => retryOne r now b i v := by
  have loop : ∀ (l : List (Sigma fun _ : I => V)) (b : Book I K H P V), l.NodupKeys → (∀ e ∈ l, r.item e.2 = e.1) →
      (∀ e ∈ l, e.1 ≠ i → b.items.lookup e.1 = none) →
      l.foldl (fun b e => retryOne r now b e.1 e.2) b = match l.dlookup i with
        | none => b
        | some v => retryOne r now b i v := by
    intro l
    induction l with
    | nil => intro b _ _ _; rfl
    | cons e l ih =>
      intro b nodup keyed unknown
      obtain ⟨key, v⟩ := e
      obtain ⟨absent, nodup⟩ := List.nodupKeys_cons.mp nodup
      rw [List.foldl_cons]
      by_cases own : i = key
      · subst own
        rw [List.dlookup_cons_eq]
        apply retryOne_idle
        intro e member
        have other : e.1 ≠ i := fun same => absent (List.mem_keys.mpr ⟨e.2, by rw [← same]; exact member⟩)
        have before := unknown e (List.mem_cons_of_mem _ member) other
        rw [keyed e (List.mem_cons_of_mem _ member)]
        unfold retryOne update
        cases b.items.lookup (r.item v) with
        | none => exact before
        | some p =>
          simp only
          cases addOrUpdate r now (r.votes p) v with
          | error e => exact before
          | ok votes =>
            have mine : r.item v = i := keyed ⟨i, v⟩ List.mem_cons_self
            simp only [Except.map, mine, StdMap.lookup_insert_ite, if_neg other]
            exact before
      · have unknownItem : b.items.lookup (r.item v) = none := by
          rw [keyed ⟨key, v⟩ List.mem_cons_self]
          exact unknown ⟨key, v⟩ List.mem_cons_self (Ne.symm own)
        have same : retryOne r now b key v = b := by rw [retryOne, update_unknown r unknownItem]
        rw [same, List.dlookup_cons_ne _ _ own]
        exact ih b nodup (fun e member => keyed e (List.mem_cons_of_mem _ member))
          fun e member => unknown e (List.mem_cons_of_mem _ member)
  refine loop b.orphans.entries b b.orphans.nodupKeys (fun e member => ?_) fun e member other => ?_
  · exact keyed e.1 e.2 (StdMap.mem_entries_iff.mp member)
  · exact unknown e.1 e.2 (StdMap.mem_entries_iff.mp member) other

end Counting

section Runs

variable {r : Rules I K H P V}

/-- Items hold what is put into them, items arrive without votes, no two votes have one hash, the votes of a voter
on an item lie apart, and from its delivery on no vote lies in the future. -/
structure Fair (r : Rules I K H P V) (ops : List (Op I P V)) : Prop where
  holds : ∀ p votes, r.votes (r.setVotes p votes) = votes
  positive : 0 < r.gap
  bare : ∀ now i p, Op.register now i p ∈ ops → r.votes p = ∅
  hashes : ∀ v ∈ delivered ops, ∀ w ∈ delivered ops, r.hash v = r.hash w → v = w
  apart : ∀ v ∈ delivered ops, ∀ w ∈ delivered ops, v ≠ w → r.item v = r.item w → r.voter v = r.voter w →
    r.time v + r.gap ≤ r.time w ∨ r.time w + r.gap ≤ r.time v
  past : ∀ before op, before ++ [op] <+: ops → ∀ v ∈ delivered (before ++ [op]), r.time v ≤ op.now + r.ahead

structure HoldsLast (r : Rules I K H P V) (votes : StdMap K V) (counted : V → Prop) : Prop where
  source : ∀ k v, votes.lookup k = some v → counted v ∧ r.voter v = k
  last : ∀ w, counted w → ∃ v, votes.lookup (r.voter w) = some v ∧ r.time w ≤ r.time v

structure Spec (r : Rules I K H P V) (b : Book I K H P V) (ops : List (Op I P V)) : Prop where
  seenVotes : ∀ h, (b.seenVotes.lookup h).isSome ↔ ∃ v ∈ delivered ops, r.hash v = h
  seenItems : ∀ i, (b.seenItems.lookup i).isSome ↔ Registered ops i
  unregistered : ∀ i, ¬Registered ops i → b.items.lookup i = none ∧ b.orphans.lookup i = waiting r i ops
  registered : ∀ i, Registered ops i → b.orphans.lookup i = none ∧
    ∃ p, b.items.lookup i = some p ∧ HoldsLast r (r.votes p) (Counted r ops i)

variable {votes : StdMap K V} {counted counted' : V → Prop}

omit [DecidableEq I] [DecidableEq H] [DecidableEq V] in
theorem HoldsLast.congr (holds : HoldsLast r votes counted) (same : ∀ v, counted' v ↔ counted v) :
    HoldsLast r votes counted' where
  source k v found := by
    rw [same]
    exact holds.source k v found
  last w member := holds.last w ((same w).mp member)

omit [DecidableEq I] [DecidableEq H] [DecidableEq V] in
/-- Putting the vote in place keeps the last of each voter, when it is not older than what was there. -/
theorem HoldsLast.insert (holds : HoldsLast r votes counted) {v : V}
    (new : ∀ w, counted' w ↔ counted w ∨ w = v)
    (newest : ∀ old, votes.lookup (r.voter v) = some old → r.time old ≤ r.time v) :
    HoldsLast r (votes.insert (r.voter v) v) counted' where
  source k w found := by
    rw [StdMap.lookup_insert_ite] at found
    split at found
    · rename_i same
      obtain rfl := Option.some.inj found
      exact ⟨(new _).mpr (Or.inr rfl), same.symm⟩
    · exact ⟨(new w).mpr (Or.inl (holds.source k w found).1), (holds.source k w found).2⟩
  last w member := by
    rw [StdMap.lookup_insert_ite]
    rcases (new w).mp member with before | rfl
    · obtain ⟨old, found, bound⟩ := holds.last w before
      by_cases same : r.voter w = r.voter v
      · rw [same] at found
        have later := newest old found
        exact ⟨v, if_pos same, by omega⟩
      · exact ⟨old, by rw [if_neg same]; exact found, bound⟩
    · exact ⟨w, if_pos rfl, Int.le_refl _⟩

omit [DecidableEq I] [DecidableEq H] [DecidableEq V] in
theorem HoldsLast.addOrUpdate (holds : HoldsLast r votes counted) {v : V} (new : ∀ w, counted' w ↔ counted w ∨ w = v)
    (time : r.time v ≤ now + r.ahead) (positive : 0 < r.gap)
    (apart : ∀ w, counted w → r.voter w = r.voter v → r.time v + r.gap ≤ r.time w ∨ r.time w + r.gap ≤ r.time v) :
    (∃ votes', Ballot.addOrUpdate r now votes v = .ok votes' ∧ HoldsLast r votes' counted') ∨
      (∃ e, Ballot.addOrUpdate r now votes v = .error e) ∧ HoldsLast r votes counted' := by
  cases found : votes.lookup (r.voter v) with
  | none =>
    refine Or.inl ⟨_, addOrUpdate_new r found time, holds.insert new fun old present => ?_⟩
    rw [found] at present
    cases present
  | some old =>
    obtain ⟨member, voter⟩ := holds.source _ old found
    unfold Ballot.addOrUpdate
    simp only [found]
    rcases apart old member voter with older | newer
    · refine Or.inr ⟨⟨.older, if_pos (by omega)⟩, ⟨fun k w present => ?_, fun w listed => ?_⟩⟩
      · exact ⟨(new w).mpr (Or.inl (holds.source k w present).1), (holds.source k w present).2⟩
      · rcases (new w).mp listed with before | rfl
        · exact holds.last w before
        · exact ⟨old, found, by omega⟩
    · refine Or.inl ⟨votes.insert (r.voter v) v, ?_, holds.insert new fun old' present => ?_⟩
      · rw [if_neg (by omega), if_neg (by omega), if_neg (by omega)]
      · rw [found] at present
        obtain rfl := Option.some.inj present
        omega

omit [DecidableEq K] [DecidableEq H] in
theorem counted_append {i : I} (registered : Registered ops i) (w : V) :
    Counted r (ops ++ [op]) i w ↔ Counted r ops i w ∨ (op.vote? = some w ∧ r.item w = i ∧ w ∉ delivered ops) := by
  have waits : waiting r i (ops ++ [op]) = waiting r i ops := by
    rw [waiting_append]
    cases op.vote? with
    | none => rfl
    | some v => simp [registered]
  unfold Counted
  rw [waits, (votesBefore_append r i ops op).1 registered, delivered_append, or_assoc]
  refine or_congr_right ?_
  simp only [List.mem_append, Option.mem_toList]
  constructor
  · rintro ⟨before | new, own, late⟩
    · exact Or.inl ⟨before, own, late⟩
    · by_cases seen : w ∈ delivered ops
      · exact Or.inl ⟨seen, own, late⟩
      · exact Or.inr ⟨new, own, seen⟩
  · rintro (⟨before, own, late⟩ | ⟨new, own, fresh⟩)
    · exact ⟨Or.inl before, own, late⟩
    · exact ⟨Or.inr new, own, fun early => fresh (mem_votesBefore r early).1⟩

namespace Spec

variable {b : Book I K H P V} {ops : List (Op I P V)}

variable {i : I} {v : V} {now : Int}

theorem orphan (spec : Spec r b ops) (waits : b.orphans.lookup i = some v) :
    ¬Registered ops i ∧ r.item v = i ∧ v ∈ delivered ops ∧ b.items.lookup i = none := by
  have unregistered : ¬Registered ops i := by
    intro registered
    rw [(spec.registered i registered).1] at waits
    cases waits
  obtain ⟨unknown, same⟩ := spec.unregistered i unregistered
  obtain ⟨member, own⟩ := mem_votesBefore r (mem_of_waiting r (same.symm.trans waits))
  exact ⟨unregistered, own, member, unknown⟩

theorem start (r : Rules I K H P V) : Spec r empty [] := by
  refine ⟨fun h => ?_, fun i => ?_, fun i _ => ⟨rfl, rfl⟩, fun i registered => ?_⟩
  · simp [empty, delivered]
  · simp [empty, Registered]
  · cases registered

theorem retry_eq (spec : Spec r b ops) (now : Int) : Ballot.retry r now b = b := by
  apply retryOne_idle
  intro e member
  obtain ⟨_, own, _, unknown⟩ := spec.orphan (StdMap.mem_entries_iff.mp member)
  rw [own]
  exact unknown

omit [DecidableEq K] [DecidableEq H] in
theorem aside {op : Op I P V} (item : op.item? ≠ some i)
    (vote : ∀ v, op.vote? = some v → v ∈ delivered ops ∨ r.item v ≠ i) :
    (Registered (ops ++ [op]) i ↔ Registered ops i) ∧ waiting r i (ops ++ [op]) = waiting r i ops ∧
      (Registered ops i → ∀ w, Counted r (ops ++ [op]) i w ↔ Counted r ops i w) := by
  refine ⟨by rw [registered_append, or_iff_left item], ?_, fun registered w => ?_⟩
  · rw [waiting_append]
    cases voted : op.vote? with
    | none => rfl
    | some v =>
      refine if_neg fun about => ?_
      rcases vote v voted with seen | other
      · exact about.2.2 seen
      · exact other about.1
  · rw [counted_append registered, or_iff_left_of_imp]
    rintro ⟨new, own, fresh⟩
    rcases vote w new with seen | other
    · exact absurd seen fresh
    · exact absurd own other

/-- One operation: every item is left alone, or holds what it should after it. -/
theorem step (spec : Spec r b ops) {b' : Book I K H P V}
    (seenVotes : ∀ h, (b'.seenVotes.lookup h).isSome ↔ ∃ v ∈ delivered (ops ++ [op]), r.hash v = h)
    (seenItems : ∀ i, (b'.seenItems.lookup i).isSome ↔ Registered (ops ++ [op]) i)
    (items : ∀ i, (op.item? ≠ some i ∧ (∀ v, op.vote? = some v → v ∈ delivered ops ∨ r.item v ≠ i) ∧ b'.items.lookup i = b.items.lookup i ∧ b'.orphans.lookup i = b.orphans.lookup i) ∨ (¬Registered (ops ++ [op]) i → b'.items.lookup i = none ∧ b'.orphans.lookup i = waiting r i (ops ++ [op])) ∧ (Registered (ops ++ [op]) i → b'.orphans.lookup i = none ∧ ∃ p, b'.items.lookup i = some p ∧ HoldsLast r (r.votes p) (Counted r (ops ++ [op]) i))) :
    Spec r b' (ops ++ [op]) := by
  refine ⟨seenVotes, seenItems, fun i unregistered => ?_, fun i registered => ?_⟩
  · rcases items i with ⟨item, vote, sameItem, sameOrphan⟩ | ⟨after, _⟩
    · obtain ⟨before, waits, _⟩ := aside item vote
      rw [sameItem, sameOrphan, waits]
      exact spec.unregistered i (mt before.mpr unregistered)
    · exact after unregistered
  · rcases items i with ⟨item, vote, sameItem, sameOrphan⟩ | ⟨_, after⟩
    · obtain ⟨before, _, counts⟩ := aside item vote
      obtain ⟨none_, p, known, holds⟩ := spec.registered i (before.mp registered)
      exact ⟨sameOrphan.trans none_, p, sameItem.trans known, holds.congr (counts (before.mp registered))⟩
    · exact after registered

theorem seenItems_append (spec : Spec r b ops) (op : Op I P V) (item : ∀ i, op.item? = some i → Registered ops i) (i : I) :
    (b.seenItems.lookup i).isSome ↔ Registered (ops ++ [op]) i := by
  rw [spec.seenItems, registered_append, or_iff_left_of_imp (item i)]

theorem seenVotes_append (spec : Spec r b ops) (op : Op I P V) (vote : ∀ v, op.vote? = some v → v ∈ delivered ops) (h : H) :
    (b.seenVotes.lookup h).isSome ↔ ∃ v ∈ delivered (ops ++ [op]), r.hash v = h := by
  rw [spec.seenVotes, delivered_append]
  constructor
  · rintro ⟨w, listed, hash⟩
    exact ⟨w, List.mem_append_left _ listed, hash⟩
  · rintro ⟨w, listed, hash⟩
    rcases List.mem_append.mp listed with before | new
    · exact ⟨w, before, hash⟩
    · exact ⟨w, vote w (Option.mem_toList.mp new), hash⟩

theorem idle (spec : Spec r b ops) (now : Int) : Spec r b (ops ++ [.retry now]) :=
  spec.step (spec.seenVotes_append _ nofun) (spec.seenItems_append _ nofun) fun _ => Or.inl ⟨nofun, nofun, rfl, rfl⟩

theorem seen (spec : Spec r b ops) (member : v ∈ delivered ops) : Spec r b (ops ++ [.cast now v]) := by
  have again : ∀ w, (Op.cast now v : Op I P V).vote? = some w → w ∈ delivered ops := by
    intro w voted
    cases voted
    exact member
  exact spec.step (spec.seenVotes_append _ again) (spec.seenItems_append _ nofun) fun _ =>
    Or.inl ⟨nofun, fun w voted => Or.inl (again w voted), rfl, rfl⟩

theorem cast (spec : Spec r b ops) (fair : Fair r (ops ++ [.cast now v])) :
    Spec r (Ballot.cast r now b v) (ops ++ [.cast now v]) := by
  have listed : v ∈ delivered (ops ++ [.cast now v]) := by simp [delivered_append, Op.vote?]
  have sub : ∀ w ∈ delivered ops, w ∈ delivered (ops ++ [.cast now v]) := by
    intro w member
    rw [delivered_append]
    exact List.mem_append_left _ member
  have items : Registered (ops ++ [.cast now v]) (r.item v) ↔ Registered ops (r.item v) := by
    rw [registered_append]
    simp [Op.item?]
  unfold Ballot.cast deliver
  by_cases known : (b.seenVotes.lookup (r.hash v)).isSome
  · rw [if_pos known]
    obtain ⟨w, member, hash⟩ := (spec.seenVotes _).mp known
    have same := fair.hashes w (sub w member) v listed hash
    exact spec.seen (same ▸ member)
  rw [if_neg known]
  have fresh : v ∉ delivered ops := fun member => known ((spec.seenVotes _).mpr ⟨v, member, rfl⟩)
  have seenVotes : ∀ h, ((b.seenVotes.insert (r.hash v) v).lookup h).isSome ↔
      ∃ w ∈ delivered (ops ++ [.cast now v]), r.hash w = h := by
    intro h
    rw [StdMap.lookup_insert_ite]
    split
    · rename_i same
      exact iff_of_true rfl ⟨v, listed, same.symm⟩
    · rename_i other
      rw [spec.seenVotes]
      constructor
      · rintro ⟨w, member, hash⟩
        exact ⟨w, sub w member, hash⟩
      · rintro ⟨w, member, hash⟩
        rw [delivered_append] at member
        rcases List.mem_append.mp member with before | new
        · exact ⟨w, before, hash⟩
        · obtain rfl : w = v := by simpa [Op.vote?, eq_comm] using new
          exact absurd hash.symm other
  have seenItems := spec.seenItems_append (.cast now v) nofun
  have other : ∀ {i}, i ≠ r.item v → ∀ w, (Op.cast now v : Op I P V).vote? = some w → w ∈ delivered ops ∨ r.item w ≠ i := by
    intro i other w voted
    cases voted
    exact Or.inr (Ne.symm other)
  by_cases registered : Registered ops (r.item v)
  · -- The item is known.
    obtain ⟨none_, p, at_, holds⟩ := spec.registered _ registered
    have counts : ∀ w, Counted r (ops ++ [.cast now v]) (r.item v) w ↔ Counted r ops (r.item v) w ∨ w = v := by
      intro w
      rw [counted_append registered]
      refine or_congr_right ⟨fun ⟨new, _⟩ => ?_, ?_⟩
      · simpa [Op.vote?, eq_comm] using new
      · rintro rfl
        exact ⟨rfl, rfl, fresh⟩
    have apart : ∀ w, Counted r ops (r.item v) w → r.voter w = r.voter v →
        r.time v + r.gap ≤ r.time w ∨ r.time w + r.gap ≤ r.time v := by
      intro w member voter
      have known : w ∈ delivered ops ∧ r.item w = r.item v := by
        rcases member with waits | ⟨before, own, _⟩
        · exact mem_votesBefore r (mem_of_waiting r waits)
        · exact ⟨before, own⟩
      have other : v ≠ w := by
        rintro rfl
        exact fresh known.1
      exact fair.apart v listed w (sub w known.1) other known.2.symm voter.symm
    have past : r.time v ≤ now + r.ahead := fair.past ops (.cast now v) List.prefix_rfl v listed
    simp only [at_, update]
    rcases holds.addOrUpdate counts past fair.positive apart with ⟨votes, ok, holds'⟩ | ⟨⟨e, refused⟩, holds'⟩
    · rw [ok]
      refine spec.step seenVotes seenItems fun i => ?_
      by_cases own : i = r.item v
      · subst own
        refine Or.inr ⟨fun absent => absurd (items.mpr registered) absent, fun _ => ⟨none_, r.setVotes p votes, by simp [Except.map], ?_⟩⟩
        rw [fair.holds]
        exact holds'
      · exact Or.inl ⟨nofun, other own, by simp only [Except.map, StdMap.lookup_insert_ite, if_neg own], rfl⟩
    · rw [refused]
      refine spec.step seenVotes seenItems fun i => ?_
      by_cases own : i = r.item v
      · subst own
        exact Or.inr ⟨fun absent => absurd (items.mpr registered) absent, fun _ => ⟨none_, p, at_, holds'⟩⟩
      · exact Or.inl ⟨nofun, other own, rfl, rfl⟩
  · -- The item is not known, and the vote takes the place of the one that waited.
    obtain ⟨unknown, _⟩ := spec.unregistered _ registered
    simp only [unknown]
    refine spec.step seenVotes seenItems fun i => ?_
    by_cases own : i = r.item v
    · subst own
      refine Or.inr ⟨fun _ => ⟨unknown, ?_⟩, fun now_ => absurd (items.mp now_) registered⟩
      rw [waiting_append]
      simp [Op.vote?, registered, fresh]
    · exact Or.inl ⟨nofun, other own, rfl, by simp only [StdMap.lookup_insert_ite, if_neg own]⟩

theorem register (spec : Spec r b ops) {p : P} (fair : Fair r (ops ++ [.register now i p])) :
    Spec r (Ballot.register r now b i p) (ops ++ [.register now i p]) := by
  have votes : delivered (ops ++ [.register now i p]) = delivered ops := by rw [delivered_append]; simp [Op.vote?]
  have waits : ∀ j, waiting r j (ops ++ [.register now i p]) = waiting r j ops := fun j => waiting_append r j ops _
  have arrived : Registered (ops ++ [.register now i p]) i := (registered_append _ _ _).mpr (Or.inr rfl)
  have seenVotes := spec.seenVotes_append (.register now i p) nofun
  unfold Ballot.register
  by_cases registered : Registered ops i
  · -- The item was seen.
    rw [if_pos ((spec.seenItems i).mpr registered)]
    have known : ∀ j, (Op.register now i p : Op I P V).item? = some j → Registered ops j := by
      intro j own
      cases own
      exact registered
    refine spec.step seenVotes (spec.seenItems_append _ known) fun j => ?_
    by_cases own : j = i
    · subst own
      obtain ⟨none_, q, at_, holds⟩ := spec.registered j registered
      refine Or.inr ⟨fun absent => absurd arrived absent, fun _ => ⟨none_, q, at_, holds.congr fun w => ?_⟩⟩
      rw [counted_append registered]
      simp [Op.vote?]
    · exact Or.inl ⟨fun same => own (Option.some.inj same).symm, nofun, rfl, rfl⟩
  · have bare : r.votes p = ∅ := fair.bare now i p (by simp)
    obtain ⟨unknown, orphan⟩ := spec.unregistered i registered
    rw [if_neg (fun seen => registered ((spec.seenItems i).mp seen)), if_neg (by simp [unknown])]
    have keyed : ∀ j v, b.orphans.lookup j = some v → r.item v = j := fun j v held => (spec.orphan held).2.1
    have single := retry_single r now (b := { b with seenItems := b.seenItems.insert i p, items := b.items.insert i p })
      (i := i) keyed (fun j v held other => by
        simp only [StdMap.lookup_insert_ite, if_neg other]
        exact (spec.orphan held).2.2.2)
    have early : ∀ w, Counted r (ops ++ [.register now i p]) i w ↔ waiting r i ops = some w := by
      intro w
      unfold Counted
      rw [waits, votes, (votesBefore_append r i ops _).2 registered]
      refine or_iff_left_of_imp ?_
      rintro ⟨member, own, late⟩
      exact absurd (List.mem_append_left _ (mem_votesBefore_of_unregistered r registered member own)) late
    have seenItems : ∀ j, ((b.seenItems.insert i p).lookup j).isSome ↔ Registered (ops ++ [.register now i p]) j := by
      intro j
      rw [registered_append, StdMap.lookup_insert_ite]
      split
      · rename_i same
        exact iff_of_true rfl (Or.inr (congrArg some same.symm))
      · rename_i other
        have apart : (Op.register now i p : Op I P V).item? ≠ some j := fun own => other (Option.some.inj own).symm
        rw [spec.seenItems, or_iff_left apart]
    have none_counted : HoldsLast r (r.votes p) fun _ => False := by
      rw [bare]
      exact ⟨nofun, nofun⟩
    rw [single]
    simp only [orphan]
    cases waiting_ : waiting r i ops with
    | none =>
      refine spec.step seenVotes seenItems fun j => ?_
      by_cases own : j = i
      · subst own
        refine Or.inr ⟨fun absent => absurd arrived absent, fun _ => ⟨orphan.trans waiting_, p, by simp, none_counted.congr fun w => ?_⟩⟩
        rw [early, waiting_]
        exact iff_of_false nofun id
      · exact Or.inl ⟨fun same => own (Option.some.inj same).symm, nofun, by simp only [StdMap.lookup_insert_ite, if_neg own], rfl⟩
    | some v =>
      obtain ⟨_, own, member, _⟩ := spec.orphan (orphan.trans waiting_)
      have past : r.time v ≤ now + r.ahead :=
        fair.past ops (.register now i p) List.prefix_rfl v (by rw [votes]; exact member)
      have added : addOrUpdate r now (r.votes p) v = .ok ((r.votes p).insert (r.voter v) v) :=
        addOrUpdate_new r (by rw [bare]; rfl) past
      have tried : retryOne r now { b with seenItems := b.seenItems.insert i p, items := b.items.insert i p } i v =
          { b with
            seenItems := b.seenItems.insert i p
            items := (b.items.insert i p).insert i (r.setVotes p ((r.votes p).insert (r.voter v) v))
            orphans := b.orphans.erase i } := by
        unfold retryOne update
        simp only [own, StdMap.lookup_insert_ite, if_true, added, Except.map]
      simp only [tried]
      refine spec.step seenVotes seenItems fun j => ?_
      by_cases mine : j = i
      · subst mine
        refine Or.inr ⟨fun absent => absurd arrived absent, fun _ => ⟨by simp, r.setVotes p ((r.votes p).insert (r.voter v) v), by simp, ?_⟩⟩
        rw [fair.holds]
        refine none_counted.insert (fun w => ?_) fun old present => by simp [bare] at present
        rw [early, waiting_, Option.some_inj, false_or]
        exact eq_comm
      · refine Or.inl ⟨fun same => mine (Option.some.inj same).symm, nofun, ?_, ?_⟩
        · simp only [StdMap.lookup_insert_ite, if_neg mine]
        · simp only [StdMap.lookup_erase_ite, if_neg mine]

end Spec

/-- The votes of every item delivered are the last ones of all voters exactly when, of the votes delivered before
the item, every one that is the last of its voter is the one that waited. -/
theorem last_votes_iff (fair : Fair r ops) (spec : Spec r b ops) :
    (∀ i, Registered ops i → ∃ p, b.items.lookup i = some p ∧
      ∀ k v, (r.votes p).lookup k = some v ↔ Latest r ops i v ∧ r.voter v = k) ↔
    ∀ i, Registered ops i → ∀ v ∈ votesBefore r i ops, Latest r ops i v → waiting r i ops = some v := by
  refine forall_congr' fun i => imp_congr_right fun registered => ?_
  obtain ⟨_, p, at_, holds⟩ := spec.registered i registered
  have known : ∀ w, Counted r ops i w → w ∈ delivered ops ∧ r.item w = i := by
    rintro w (waits | ⟨member, own, _⟩)
    · exact mem_votesBefore r (mem_of_waiting r waits)
    · exact ⟨member, own⟩
  constructor
  · rintro ⟨p', at', last⟩ v early latest
    rw [at_] at at'
    obtain rfl := Option.some.inj at'
    obtain ⟨counted, _⟩ := holds.source _ v ((last (r.voter v) v).mpr ⟨latest, rfl⟩)
    rcases counted with waits | ⟨_, _, late⟩
    · exact waits
    · exact absurd early late
  · intro waits
    have counted : ∀ v, Latest r ops i v → Counted r ops i v := by
      intro v latest
      by_cases early : v ∈ votesBefore r i ops
      · exact Or.inl (waits v early latest)
      · exact Or.inr ⟨latest.1, latest.2.1, early⟩
    refine ⟨p, at_, fun k v => ⟨fun found => ?_, ?_⟩⟩
    · -- A later vote of the voter would be counted, too.
      obtain ⟨source, voter⟩ := holds.source k v found
      obtain ⟨member, own⟩ := known v source
      refine ⟨⟨member, own, fun w listed sameItem sameVoter => ?_⟩, voter⟩
      obtain ⟨m, mine, top⟩ := ((delivered ops).toFinset.filter fun u => r.item u = i ∧ r.voter u = r.voter v).exists_max_image r.time
        ⟨w, by simp [listed, sameItem, sameVoter]⟩
      simp only [Finset.mem_filter, List.mem_toFinset] at mine top
      have latest : Latest r ops i m :=
        ⟨mine.1, mine.2.1, fun u delivered_ item voter' => top u ⟨delivered_, item, voter'.trans mine.2.2⟩⟩
      obtain ⟨u, found', bound⟩ := holds.last m (counted m latest)
      rw [mine.2.2, voter, found] at found'
      obtain rfl := Option.some.inj found'
      have below := top w ⟨listed, sameItem, sameVoter⟩
      omega
    · rintro ⟨latest, rfl⟩
      obtain ⟨w, found, bound⟩ := holds.last v (counted v latest)
      obtain ⟨source, voter⟩ := holds.source _ w found
      obtain ⟨member, own⟩ := known w source
      have upper := latest.2.2 w member own voter
      by_cases same : v = w
      · rw [← same] at found
        exact found
      · have gap := fair.apart v latest.1 w member same (latest.2.1.trans own.symm) voter.symm
        have positive := fair.positive
        omega

end Runs

end Ballot
