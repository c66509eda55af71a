import SchillingCoin.Chain.BlockTree

/-!
The skip list over the block index as it is built, after `CBlockIndex::GetAncestor` and `BuildSkip` in `main.cpp`.
-/

namespace SchillingCoin

def TreeEntry.setSkip (e : TreeEntry) (pskip : Option IndexPtr) : TreeEntry := { e with pskip }

namespace BlockTree

/-- The loop of `GetAncestor`. `none` is a null pointer that is followed. -/
def ancestorLoop (t : BlockTree) (height : Nat) (pindexWalk : IndexPtr) (heightWalk : Nat) : Option IndexPtr :=
  if heightWalk > height then
    let heightSkip := getSkipHeight heightWalk
    let heightSkipPrev := getSkipHeight (heightWalk - 1)
    -- follow `pskip` only if `pprev->pskip` is not better than `pskip->pprev`
    if heightSkip = height ∨ (heightSkip > height ∧ ¬(heightSkipPrev + 2 < heightSkip ∧ heightSkipPrev ≥ height)) then
      ((t.entry pindexWalk).bind TreeEntry.pskip).bind fun pskip => t.ancestorLoop height pskip (getSkipHeight heightWalk)
    else ((t.entry pindexWalk).bind TreeEntry.pprev).bind fun pprev => t.ancestorLoop height pprev (heightWalk - 1)
  else some pindexWalk
termination_by heightWalk
decreasing_by
  · exact getSkipHeight_lt (by omega)
  · omega

variable (t : BlockTree) (p : IndexPtr) (e : TreeEntry)

/-- `GetAncestor` at any height. The outer `none` is a null pointer that is followed, the inner one is what is returned. -/
def getAncestorAt (height : Int) : Option (Option IndexPtr) :=
  (t.entry p).bind fun e =>
    if height > e.nHeight ∨ height < 0 then some none else (t.ancestorLoop height.toNat p e.nHeight).map some

def setEntry : BlockTree := { t with mapBlockIndex := t.mapBlockIndex.insert p e }

def linkBlock (pprev : Option IndexPtr) (e : TreeEntry) : Option BlockTree :=
  match pprev with
  | none => some (t.setEntry p { e with pprev := none, pskip := none, nHeight := 0 })
  | some q => (t.entry q).map fun parent => t.setEntry p { e with pprev := some q, pskip := none, nHeight := parent.nHeight + 1 }

def buildSkip : Option BlockTree :=
  (t.entry p).bind fun e =>
    match e.pprev with
    | none => some t
    | some q => (t.getAncestorAt q (getSkipHeight e.nHeight)).map fun pskip => t.setEntry p (e.setSkip pskip)

/-- A tree that is being built, with the blocks that `BuildSkip` was called for. -/
inductive Linking : BlockTree → Finset IndexPtr → Prop
  | empty {t : BlockTree} : t.mapBlockIndex = ∅ → Linking t ∅
  | link {t t' : BlockTree} {built : Finset IndexPtr} {p : IndexPtr} {pprev : Option IndexPtr} {e : TreeEntry} :
      Linking t built → t.entry p = none → t.linkBlock p pprev e = some t' → Linking t' built
  | skip {t t' : BlockTree} {built : Finset IndexPtr} {p : IndexPtr} :
      Linking t built → (∀ e q, t.entry p = some e → e.pprev = some q → q ∈ built) → t.buildSkip p = some t' →
      Linking t' (insert p built)

def walkBack (t : BlockTree) : Nat → IndexPtr → Option IndexPtr
  | 0, p => some p
  | n + 1, p => ((t.entry p).bind TreeEntry.pprev).bind (t.walkBack n)

theorem entry_setEntry (p' : IndexPtr) (e : TreeEntry) : (t.setEntry p e).entry p' = if p' = p then some e else t.entry p' := by
  unfold setEntry entry
  rw [StdMap.lookup_insert_ite]

theorem walkBack_add (m n : Nat) (p : IndexPtr) : t.walkBack (m + n) p = (t.walkBack m p).bind (t.walkBack n) := by
  induction m generalizing p with
  | zero => rw [Nat.zero_add, walkBack, Option.bind_some]
  | succ m ih => simp only [Nat.succ_add, walkBack, ih, Option.bind_assoc]

variable {n : Nat} {p a : IndexPtr} {e : TreeEntry}

theorem walkBack_mono {t t' : BlockTree}
    (kept : ∀ p q, (t.entry p).bind TreeEntry.pprev = some q → (t'.entry p).bind TreeEntry.pprev = some q)
    (walked : t.walkBack n p = some a) : t'.walkBack n p = some a := by
  induction n generalizing p with
  | zero => exact walked
  | succ n ih =>
    obtain ⟨q, parent, rest⟩ := Option.bind_eq_some_iff.mp walked
    rw [walkBack, kept p q parent]
    exact ih rest

/-- Some blocks with their ancestors, each of which skips to its ancestor at the skip height. -/
structure SkipsBuiltFor (t : BlockTree) (built : Finset IndexPtr) : Prop where
  rooted : t.Rooted
  known : ∀ p ∈ built, (t.entry p).isSome
  parent : ∀ p ∈ built, ∀ e q, t.entry p = some e → e.pprev = some q → q ∈ built
  skip : ∀ p ∈ built, ∀ e q, t.entry p = some e → e.pprev = some q →
    ∃ s, e.pskip = some s ∧ t.walkBack (e.nHeight - getSkipHeight e.nHeight) p = some s

theorem Rooted.walkBack_spec {t : BlockTree} (rooted : t.Rooted) (found : t.entry p = some e)
    (few : n ≤ e.nHeight) :
    ∃ a ea, t.walkBack n p = some a ∧ t.entry a = some ea ∧ ea.nHeight + n = e.nHeight := by
  induction n generalizing p e with
  | zero => exact ⟨p, e, rfl, found, rfl⟩
  | succ n ih =>
    have up := rooted p e found
    cases parent : e.pprev with
    | none =>
      rw [parent] at up
      dsimp only at up
      omega
    | some q =>
      rw [parent] at up
      obtain ⟨entry, here, height⟩ := up
      obtain ⟨a, ea, walked, there, sum⟩ := ih here (by omega)
      refine ⟨a, ea, ?_, there, by omega⟩
      rw [walkBack, found, Option.bind_some, parent, Option.bind_some]
      exact walked

variable {t t' : BlockTree} {built : Finset IndexPtr}

theorem SkipsBuiltFor.walkBack_mem (inv : t.SkipsBuiltFor built) (member : p ∈ built)
    (walked : t.walkBack n p = some a) : a ∈ built := by
  induction n generalizing p with
  | zero =>
    obtain rfl := Option.some.inj walked
    exact member
  | succ n ih =>
    obtain ⟨q, parent, rest⟩ := Option.bind_eq_some_iff.mp walked
    obtain ⟨e, found, up⟩ := Option.bind_eq_some_iff.mp parent
    exact ih (inv.parent p member e q found up) rest

theorem SkipsBuiltFor.ancestorLoop_eq (inv : t.SkipsBuiltFor built) {height : Nat} (member : p ∈ built)
    (found : t.entry p = some e) (low : height ≤ e.nHeight) :
    t.ancestorLoop height p e.nHeight = t.walkBack (e.nHeight - height) p := by
  induction walk : e.nHeight using Nat.strong_induction_on generalizing p e with
  | _ heightWalk ih =>
    subst walk
    unfold ancestorLoop
    by_cases above : e.nHeight > height
    · rw [if_pos above]
      have up := inv.rooted p e found
      cases parent : e.pprev with
      | none =>
        rw [parent] at up
        dsimp only at up
        omega
      | some q =>
        dsimp only
        split
        · next follow =>
          obtain ⟨s, skip, walked⟩ := inv.skip p member e q found parent
          have drop := @getSkipHeight_lt e.nHeight (by omega)
          obtain ⟨a, ea, walked', there, sum⟩ := inv.rooted.walkBack_spec found (Nat.sub_le e.nHeight (getSkipHeight e.nHeight))
          rw [walked] at walked'
          obtain rfl := Option.some.inj walked'
          have heightSkip : ea.nHeight = getSkipHeight e.nHeight := by omega
          have rest := ih ea.nHeight (by omega) (inv.walkBack_mem member walked) there (by omega) rfl
          have split_ : e.nHeight - height = e.nHeight - getSkipHeight e.nHeight + (ea.nHeight - height) := by omega
          rw [found, Option.bind_some, skip, Option.bind_some, ← heightSkip, rest, split_, walkBack_add, walked, Option.bind_some]
        · rw [parent] at up
          obtain ⟨entry, here, higher⟩ := up
          have rest := ih entry.nHeight (by omega) (inv.parent p member e q found parent) here (by omega) rfl
          have before : e.nHeight - 1 = entry.nHeight := by omega
          have split_ : e.nHeight - height = entry.nHeight - height + 1 := by omega
          rw [found, Option.bind_some, parent, Option.bind_some, before, rest, split_, walkBack, found, Option.bind_some, parent,
            Option.bind_some]
    · rw [if_neg above]
      have level : e.nHeight - height = 0 := by omega
      rw [level, walkBack]

theorem SkipsBuiltFor.getAncestorAt_eq (inv : t.SkipsBuiltFor built) {height : Int} (member : p ∈ built)
    (found : t.entry p = some e) (low : 0 ≤ height ∧ height ≤ e.nHeight) :
    ∃ a, t.walkBack (e.nHeight - height).toNat p = some a ∧ t.getAncestorAt p height = some (some a) := by
  have steps : (e.nHeight - height).toNat = e.nHeight - height.toNat := by omega
  obtain ⟨a, ea, walked, _, _⟩ := inv.rooted.walkBack_spec found (Nat.sub_le e.nHeight height.toNat)
  refine ⟨a, by rw [steps, walked], ?_⟩
  rw [getAncestorAt, found, Option.bind_some, if_neg (by omega), inv.ancestorLoop_eq member found (by omega), walked, Option.map_some]

theorem getAncestorAt_outside {height : Int} (found : t.entry p = some e)
    (outside : height < 0 ∨ e.nHeight < height) : t.getAncestorAt p height = some none := by
  rw [getAncestorAt, found, Option.bind_some, if_pos (by omega)]

def Keeps (t : BlockTree) (t' : BlockTree) : Prop :=
  ∀ p e, t.entry p = some e → ∃ e', t'.entry p = some e' ∧ e'.pprev = e.pprev ∧ e'.nHeight = e.nHeight

theorem Keeps.walkBack (kept : t.Keeps t') (walked : t.walkBack n p = some a) :
    t'.walkBack n p = some a := by
  apply walkBack_mono _ walked
  intro p q parent
  obtain ⟨e, found, up⟩ := Option.bind_eq_some_iff.mp parent
  obtain ⟨e', found', same, _⟩ := kept p e found
  rw [found', Option.bind_some, same, up]

theorem SkipsBuiltFor.kept (inv : t.SkipsBuiltFor built) (rooted : t'.Rooted) (kept : t.Keeps t')
    (skips : ∀ p ∈ built, ∀ e e', t.entry p = some e → t'.entry p = some e' → e'.pskip = e.pskip) : t'.SkipsBuiltFor built := by
  have back : ∀ p ∈ built, ∀ e', t'.entry p = some e' →
      ∃ e, t.entry p = some e ∧ e'.pprev = e.pprev ∧ e'.nHeight = e.nHeight ∧ e'.pskip = e.pskip := by
    intro p member e' found'
    obtain ⟨e, found⟩ := Option.isSome_iff_exists.mp (inv.known p member)
    obtain ⟨e'', found'', parent, height⟩ := kept p e found
    rw [found'] at found''
    obtain rfl := Option.some.inj found''
    exact ⟨e, found, parent, height, skips p member e e' found found'⟩
  refine ⟨rooted, fun p member => ?_, fun p member e' q found' up => ?_, fun p member e' q found' up => ?_⟩
  · obtain ⟨e, found⟩ := Option.isSome_iff_exists.mp (inv.known p member)
    obtain ⟨e', found', _⟩ := kept p e found
    rw [found']
    rfl
  · obtain ⟨e, found, parent, _⟩ := back p member e' found'
    exact inv.parent p member e q found (parent ▸ up)
  · obtain ⟨e, found, parent, height, pskip⟩ := back p member e' found'
    obtain ⟨s, skip, walked⟩ := inv.skip p member e q found (parent ▸ up)
    exact ⟨s, pskip.trans skip, by rw [height]; exact kept.walkBack walked⟩

theorem linkBlock_some (linked : t.linkBlock p pprev e = some t') :
    ∃ nHeight, t' = t.setEntry p { e with pprev, pskip := none, nHeight } ∧
      match pprev with
      | none => nHeight = 0
      | some q => ∃ parent, t.entry q = some parent ∧ nHeight = parent.nHeight + 1 := by
  unfold BlockTree.linkBlock at linked
  cases pprev with
  | none => exact ⟨0, (Option.some.inj linked).symm, rfl⟩
  | some q =>
    obtain ⟨parent, found, linked⟩ := Option.map_eq_some_iff.mp linked
    exact ⟨parent.nHeight + 1, linked.symm, parent, found, rfl⟩

theorem SkipsBuiltFor.linkBlock (inv : t.SkipsBuiltFor built) (fresh : t.entry p = none)
    (linked : t.linkBlock p pprev e = some t') : t'.SkipsBuiltFor built := by
  obtain ⟨nHeight, rfl, up⟩ := linkBlock_some linked
  have other : ∀ p' e', t.entry p' = some e' → (t.setEntry p { e with pprev, pskip := none, nHeight }).entry p' = some e' := by
    intro p' e' found
    have different : p' ≠ p := by
      intro same
      rw [same, fresh] at found
      cases found
    rw [entry_setEntry, if_neg different, found]
  apply inv.kept
  · intro p' e' found'
    rw [entry_setEntry] at found'
    split at found'
    · obtain rfl := Option.some.inj found'
      cases pprev with
      | none => exact up
      | some q =>
        obtain ⟨parent, found, height⟩ := up
        exact ⟨parent, other q parent found, height⟩
    · have parents := inv.rooted p' e' found'
      cases above : e'.pprev with
      | none => rwa [above] at parents
      | some q =>
        rw [above] at parents
        obtain ⟨parent, found, height⟩ := parents
        exact ⟨parent, other q parent found, height⟩
  · intro p' e' found
    exact ⟨e', other p' e' found, rfl, rfl⟩
  · intro p' _ e₁ e₂ found found'
    rw [other p' e₁ found] at found'
    rw [Option.some.inj found']

theorem SkipsBuiltFor.buildSkip_eq (inv : t.SkipsBuiltFor built) {q : IndexPtr} (found : t.entry p = some e)
    (parent : e.pprev = some q) (member : q ∈ built) :
    ∃ s, t.walkBack (e.nHeight - getSkipHeight e.nHeight) p = some s ∧ t.buildSkip p = some (t.setEntry p (e.setSkip (some s))) := by
  have up := inv.rooted p e found
  rw [parent] at up
  obtain ⟨entry, here, height⟩ := up
  have drop := @getSkipHeight_lt e.nHeight (by omega)
  obtain ⟨s, walked, looked⟩ := inv.getAncestorAt_eq member here (show 0 ≤ (getSkipHeight e.nHeight : Int) ∧ _ by omega)
  refine ⟨s, ?_, ?_⟩
  · have steps : e.nHeight - getSkipHeight e.nHeight = ((entry.nHeight : Int) - getSkipHeight e.nHeight).toNat + 1 := by omega
    rw [steps, walkBack, found, Option.bind_some, parent, Option.bind_some, walked]
  · rw [BlockTree.buildSkip, found, Option.bind_some, parent]
    dsimp only
    rw [looked, Option.map_some]

theorem SkipsBuiltFor.buildSkip_cases (inv : t.SkipsBuiltFor built) (found : t.entry p = some e)
    (parents : ∀ q, e.pprev = some q → q ∈ built) :
    (e.pprev = none ∧ t.buildSkip p = some t) ∨
      ∃ s, t.walkBack (e.nHeight - getSkipHeight e.nHeight) p = some s ∧ t.buildSkip p = some (t.setEntry p (e.setSkip (some s))) := by
  cases parent : e.pprev with
  | none =>
    left
    rw [BlockTree.buildSkip, found, Option.bind_some, parent]
    exact ⟨rfl, rfl⟩
  | some q => exact Or.inr (inv.buildSkip_eq found parent (parents q parent))

theorem keeps_setSkip (found : t.entry p = some e) (pskip : Option IndexPtr) :
    t.Keeps (t.setEntry p (e.setSkip pskip)) := by
  intro p' e' found'
  rw [entry_setEntry]
  split
  · next same =>
    rw [same, found] at found'
    obtain rfl := Option.some.inj found'
    exact ⟨_, rfl, rfl, rfl⟩
  · exact ⟨e', found', rfl, rfl⟩

theorem entry_setSkip (found : t.entry p = some e) (found' : (t.setEntry p (e.setSkip pskip)).entry p' = some e') :
    ∃ before, t.entry p' = some before ∧ e'.pprev = before.pprev ∧ e'.nHeight = before.nHeight ∧
      e'.pskip = if p' = p then pskip else before.pskip := by
  rw [entry_setEntry] at found'
  split at found'
  · next same =>
    obtain rfl := Option.some.inj found'
    exact ⟨e, same ▸ found, rfl, rfl, (if_pos same).symm⟩
  · next other => exact ⟨e', found', rfl, rfl, (if_neg other).symm⟩

theorem rooted_setSkip (rooted : t.Rooted) (found : t.entry p = some e) (pskip : Option IndexPtr) :
    (t.setEntry p (e.setSkip pskip)).Rooted := by
  intro p' e' found'
  obtain ⟨before, here, parent, height, _⟩ := entry_setSkip found found'
  have up := rooted p' before here
  rw [parent, height]
  cases above : before.pprev with
  | none => rwa [above] at up
  | some q =>
    rw [above] at up
    obtain ⟨entry, there, sum⟩ := up
    obtain ⟨entry', there', _, same⟩ := keeps_setSkip found pskip q entry there
    exact ⟨entry', there', by omega⟩

theorem SkipsBuiltFor.buildSkip (inv : t.SkipsBuiltFor built)
    (parents : ∀ e q, t.entry p = some e → e.pprev = some q → q ∈ built) (skipped : t.buildSkip p = some t') :
    t'.SkipsBuiltFor (insert p built) := by
  obtain ⟨e, found, _⟩ := Option.bind_eq_some_iff.mp skipped
  rcases inv.buildSkip_cases found (fun q => parents e q found) with ⟨root, same⟩ | ⟨s, walked, same⟩
  · -- a root has no pointer to set
    rw [same] at skipped
    obtain rfl := Option.some.inj skipped
    have noParent : ∀ e' q, t.entry p = some e' → e'.pprev ≠ some q := by
      intro e' q found' parent
      rw [found] at found'
      obtain rfl := Option.some.inj found'
      rw [root] at parent
      cases parent
    refine ⟨inv.rooted, fun p' member => ?_, fun p' member e' q found' parent => ?_, fun p' member e' q found' parent => ?_⟩
    all_goals rcases Finset.mem_insert.mp member with rfl | earlier
    · rw [found]
      rfl
    · exact inv.known p' earlier
    · exact absurd parent (noParent e' q found')
    · exact Finset.mem_insert_of_mem (inv.parent p' earlier e' q found' parent)
    · exact absurd parent (noParent e' q found')
    · exact inv.skip p' earlier e' q found' parent
  · rw [same] at skipped
    obtain rfl := Option.some.inj skipped
    have kept := keeps_setSkip found (some s)
    refine ⟨rooted_setSkip inv.rooted found _, fun p' member => ?_, fun p' member e' q found' parent => ?_,
      fun p' member e' q found' parent => ?_⟩
    · rw [entry_setEntry]
      rcases Finset.mem_insert.mp member with rfl | earlier
      · rw [if_pos rfl]
        rfl
      · split
        · rfl
        · exact inv.known p' earlier
    · obtain ⟨before, here, sameParent, _⟩ := entry_setSkip found found'
      rw [sameParent] at parent
      rcases Finset.mem_insert.mp member with rfl | earlier
      · exact Finset.mem_insert_of_mem (parents before q here parent)
      · exact Finset.mem_insert_of_mem (inv.parent p' earlier before q here parent)
    · obtain ⟨before, here, sameParent, sameHeight, pskip⟩ := entry_setSkip found found'
      rw [sameParent] at parent
      rw [sameHeight, pskip]
      by_cases this : p' = p
      · rw [this, found] at here
        obtain rfl := Option.some.inj here
        rw [this, if_pos rfl]
        exact ⟨s, rfl, kept.walkBack walked⟩
      · have earlier := (Finset.mem_insert.mp member).resolve_left this
        obtain ⟨s', skip, walked'⟩ := inv.skip p' earlier before q here parent
        rw [if_neg this]
        exact ⟨s', skip, kept.walkBack walked'⟩

theorem Linking.skipsBuiltFor (linking : Linking t built) : t.SkipsBuiltFor built := by
  induction linking with
  | @empty t none_ =>
    have absent : ∀ p e, t.entry p ≠ some e := by
      intro p e found
      rw [entry, none_] at found
      simp at found
    exact ⟨fun p e found => absurd found (absent p e), by simp, by simp, by simp⟩
  | link _ fresh linked inv => exact inv.linkBlock fresh linked
  | skip _ parents skipped inv => exact inv.buildSkip parents skipped

theorem Linking.buildSkip (linking : Linking t built) (found : t.entry p = some e)
    (parents : ∀ q, e.pprev = some q → q ∈ built) :
    ∃ t', t.buildSkip p = some t' ∧ Linking t' (insert p built) ∧
      ∀ p', (t'.entry p').map TreeEntry.nHeight = (t.entry p').map TreeEntry.nHeight := by
  have parents' : ∀ e' q, t.entry p = some e' → e'.pprev = some q → q ∈ built := by
    intro e' q found'
    rw [found] at found'
    obtain rfl := Option.some.inj found'
    exact parents q
  rcases linking.skipsBuiltFor.buildSkip_cases found parents with ⟨_, same⟩ | ⟨s, _, same⟩
  · exact ⟨t, same, linking.skip parents' same, fun _ => rfl⟩
  · refine ⟨_, same, linking.skip parents' same, fun p' => ?_⟩
    rw [entry_setEntry]
    split
    · next here =>
      rw [here, found]
      rfl
    · rfl

/-- A lookup over the skip list is the walk back over the parents, and neither it nor `BuildSkip` follows a null pointer. -/
theorem getAncestor_eq_walkBack (linking : Linking t built) {p : IndexPtr} {e : TreeEntry} (found : t.entry p = some e) :
    (p ∈ built → ∀ height : Int,
      (0 ≤ height ∧ height ≤ e.nHeight →
        ∃ a, t.walkBack (e.nHeight - height).toNat p = some a ∧ t.getAncestorAt p height = some (some a)) ∧
      (height < 0 ∨ e.nHeight < height → t.getAncestorAt p height = some none)) ∧
    ((∀ q, e.pprev = some q → q ∈ built) → ∃ t', t.buildSkip p = some t') := by
  have inv := linking.skipsBuiltFor
  refine ⟨fun member height => ⟨inv.getAncestorAt_eq member found, getAncestorAt_outside found⟩, fun parents => ?_⟩
  obtain ⟨t', built', _⟩ := linking.buildSkip found parents
  exact ⟨t', built'⟩

def line : Nat → BlockTree
  | 0 => { mapBlockIndex := ∅, genesis := 0, tip := 0, setBlockIndexCandidates := ∅ }
  | n + 1 =>
    let blank : TreeEntry := { pprev := none, pskip := none, nHeight := 0, nChainWork := 0, nTx := 0, nChainTx := 0, nStatus := 0
                               nSequenceId := 0 }
    (((line n).linkBlock n (if n = 0 then none else some (n - 1)) blank).bind fun t => t.buildSkip n).getD (line n)

theorem line_linking (n : Nat) : Linking (line n) (Finset.range n) ∧
    ∀ p : Nat, ((line n).entry p).map TreeEntry.nHeight = if p < n then some p else none := by
  induction n with
  | zero => exact ⟨Linking.empty rfl, fun _ => rfl⟩
  | succ n ih =>
    obtain ⟨linking, heights⟩ := ih
    have fresh : (line n).entry n = none := by
      have height := heights n
      rwa [if_neg (by omega), Option.map_eq_none_iff] at height
    unfold line
    dsimp only
    generalize ({ pprev := none, pskip := none, nHeight := 0, nChainWork := 0, nTx := 0, nChainTx := 0, nStatus := 0
                  nSequenceId := 0 } : TreeEntry) = blank
    obtain ⟨e, linked, height, up⟩ : ∃ e, (line n).linkBlock n (if n = 0 then none else some (n - 1)) blank = some ((line n).setEntry n e) ∧
        e.nHeight = n ∧ ∀ q, e.pprev = some q → q ∈ Finset.range n := by
      unfold BlockTree.linkBlock
      cases n with
      | zero => exact ⟨_, rfl, rfl, nofun⟩
      | succ n =>
        have parent := heights n
        rw [if_pos (by omega)] at parent
        obtain ⟨entry, found, same⟩ := Option.map_eq_some_iff.mp parent
        rw [if_neg (by omega)]
        simp only [Nat.add_sub_cancel, found, Option.map_some]
        refine ⟨_, rfl, by dsimp only; omega, fun q here => ?_⟩
        obtain rfl := Option.some.inj here
        exact Finset.mem_range.mpr (by omega)
    have here : ((line n).setEntry n e).entry n = some e := by rw [entry_setEntry, if_pos rfl]
    obtain ⟨t', built, linking', same⟩ := (linking.link fresh linked).buildSkip here up
    rw [linked, Option.bind_some, built, Option.getD_some, Finset.range_add_one]
    refine ⟨linking', fun p => ?_⟩
    rw [same, entry_setEntry]
    by_cases last : p = n
    · rw [if_pos last, if_pos (by omega), Option.map_some, height, last]
    · rw [if_neg last, heights]
      have order : p < n ↔ p < n + 1 := by omega
      simp only [order]

theorem line_getAncestor : ∃ a, (line 300000).walkBack 298999 299999 = some a ∧ (line 300000).getAncestorAt 299999 1000 = some (some a) := by
  obtain ⟨linking, heights⟩ := line_linking 300000
  have height := heights 299999
  rw [if_pos (by omega)] at height
  obtain ⟨e, found, same⟩ := Option.map_eq_some_iff.mp height
  have lookups := (getAncestor_eq_walkBack linking found).1 (Finset.mem_range.mpr (by omega)) 1000
  rw [same] at lookups
  exact lookups.1 (by omega)

end BlockTree

end SchillingCoin
