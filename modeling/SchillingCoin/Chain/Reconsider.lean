import SchillingCoin.Chain.BlockTree

/-!
`ReconsiderBlock` and `CheckBlockIndex` in `main.cpp`.
-/

namespace SchillingCoin

namespace BlockTree

variable (t : BlockTree) (p pindex : IndexPtr)

/-- The assertions of `CheckBlockIndex` about one entry; what the traversal finds first on the way down is on the branch. -/
def checkEntry (e : TreeEntry) : Bool :=
  let onBranch (test : TreeEntry → Bool) : Bool := (t.branch p).any fun a => (t.entry a).any test
  let below (nUpTo : Nat) (a : TreeEntry) : Bool := a.pprev.isSome && decide (a.validity < nUpTo)
  let firstInvalid := onBranch TreeEntry.failedValid
  let firstMissing := onBranch fun a => !a.haveData
  (match e.pprev with
    | none => decide (p = t.genesis) && decide (e.nHeight = 0)
    | some q => (t.entry q).any fun parent => decide (e.nHeight = parent.nHeight + 1) && decide (e.nChainWork ≥ parent.nChainWork)) &&
  (e.haveData == decide (e.nTx ≠ 0)) &&
  (decide (e.validity ≥ BLOCK_VALID_TRANSACTIONS) == decide (e.nTx > 0)) &&
  (decide (e.nChainTx ≠ 0) || decide (e.nSequenceId = 0)) &&
  (firstMissing == decide (e.nChainTx = 0)) &&
  (decide (e.nHeight < 2) || (e.pskip.bind t.entry).any fun skipped => decide (skipped.nHeight < e.nHeight)) &&
  !onBranch (below BLOCK_VALID_TREE) &&
  (decide (e.validity < BLOCK_VALID_CHAIN) || !onBranch (below BLOCK_VALID_CHAIN)) &&
  (decide (e.validity < BLOCK_VALID_SCRIPTS) || !onBranch (below BLOCK_VALID_SCRIPTS)) &&
  (firstInvalid || !e.failed) &&
  (if !((t.entry t.tip).any fun tip => workLess p e t.tip tip) && !firstMissing then
      firstInvalid || decide (p ∈ t.setBlockIndexCandidates)
    else decide (p ∉ t.setBlockIndexCandidates)) &&
  (if e.pprev.isSome && e.haveData && firstMissing then firstInvalid || decide ((e.pprev, p) ∈ t.mapBlocksUnlinked)
    else decide ((e.pprev, p) ∉ t.mapBlocksUnlinked))

def checkBlockIndex : Bool :=
  (t.entry t.genesis).isSome && (t.entry t.tip).isSome && t.mapBlockIndex.entries.all fun x => t.checkEntry x.1 x.2

def clearFailure (e : TreeEntry) : BlockTree :=
  { t with
    mapBlockIndex := t.mapBlockIndex.insert p e.reconsidered
    setDirtyBlockIndex := insert p t.setDirtyBlockIndex }

def addCandidate : BlockTree :=
  { t with setBlockIndexCandidates := insert p t.setBlockIndexCandidates }

def reconsiderDescendant (nHeight : Nat) (t : BlockTree) (p : IndexPtr) : BlockTree :=
  match t.entry p with
  | none => t
  | some e =>
    if !e.isValid BLOCK_VALID_TRANSACTIONS && t.getAncestor p nHeight == some pindex then
      let t := t.clearFailure p e
      let t :=
        if e.reconsidered.isValid BLOCK_VALID_TRANSACTIONS && decide (e.nChainTx ≠ 0) && t.sortsAfterTip p then t.addCandidate p else t
      if t.pindexBestInvalid = some p then { t with pindexBestInvalid := none } else t
    else t

def reconsiderAncestor : BlockTree :=
  match t.entry p with
  | none => t
  | some e => if e.failed then t.clearFailure p e else t

/-- The first loop is over the index in any order; the second follows `pprev`. -/
def reconsiderBlock : BlockTree :=
  let nHeight := ((t.entry pindex).map TreeEntry.nHeight).getD 0
  let t := t.mapBlockIndex.keys.foldl (reconsiderDescendant pindex nHeight) t
  (t.branch pindex).foldl reconsiderAncestor t

def Failed : Prop := ∃ e, t.entry p = some e ∧ e.failed = true

def FailedValid : Prop := ∃ e, t.entry p = some e ∧ e.failedValid = true

/-- No mark of failure without its cause, and every better block that could be connected is a candidate. -/
structure Consistent (t : BlockTree) : Prop where
  marks : ∀ p, t.Failed p → ∃ a ∈ t.branch p, t.FailedValid a
  candidates : ∀ p e, t.entry p = some e → (∀ a ∈ t.branch p, ¬t.FailedValid a) → e.nChainTx ≠ 0 → t.sortsAfterTip p = true →
    p ∈ t.setBlockIndexCandidates

def SiblingsFailAlone : Prop :=
  ∀ p, t.Failed p → pindex ∉ t.branch p → p ∉ t.branch pindex → ∃ a ∈ t.branch p, t.FailedValid a ∧ a ∉ t.branch pindex

def FreedAreOffered : Prop :=
  ∀ p e, t.entry p = some e → (∀ a ∈ t.branch p, t.FailedValid a → pindex ∈ t.branch a ∨ a ∈ t.branch pindex) → e.nChainTx ≠ 0 →
    t.sortsAfterTip p = true → p ∈ t.setBlockIndexCandidates ∨ (pindex ∈ t.branch p ∧ e.failed = true)

theorem and_not_of_and_eq_zero {s : BitVec 32} (clear : s &&& mask = 0) : s &&& ~~~mask = s := by
  have whole : s &&& (mask ||| ~~~mask) = s := by
    rw [BitVec.or_not_self]
    exact BitVec.and_allOnes
  have split : s &&& (mask ||| ~~~mask) = (s &&& mask) ||| (s &&& ~~~mask) := BitVec.and_or_distrib_left
  have none_ : (0 : BitVec 32) ||| (s &&& ~~~mask) = s &&& ~~~mask := BitVec.zero_or
  rw [whole, clear, none_] at split
  exact split.symm

end BlockTree

namespace TreeEntry

variable (e : TreeEntry)

theorem reconsidered_failed : e.reconsidered.failed = false := by
  unfold failed reconsidered
  have nothing : ~~~BLOCK_FAILED_MASK &&& BLOCK_FAILED_MASK = 0 := by decide
  simp only [BitVec.and_assoc, nothing]
  simp

theorem reconsidered_failedValid : e.reconsidered.failedValid = false := by
  unfold failedValid reconsidered
  have nothing : ~~~BLOCK_FAILED_MASK &&& BLOCK_FAILED_VALID = 0 := by decide
  simp only [BitVec.and_assoc, nothing]
  simp

theorem reconsidered_validity : e.reconsidered.validity = e.validity := by
  unfold validity reconsidered
  have apart : ~~~BLOCK_FAILED_MASK &&& BLOCK_VALID_MASK = BLOCK_VALID_MASK := by decide
  simp only [BitVec.and_assoc, apart]

theorem reconsidered_eq {e : TreeEntry} (clear : e.failed = false) : e.reconsidered = e := by
  unfold failed at clear
  have zero : e.nStatus &&& BLOCK_FAILED_MASK = 0 := by simpa using clear
  unfold reconsidered
  rw [BlockTree.and_not_of_and_eq_zero zero]

theorem failed_of_failedValid {e : TreeEntry} (mark : e.failedValid = true) : e.failed = true := by
  by_contra clear
  have same := reconsidered_eq (Bool.not_eq_true _ ▸ clear)
  have none_ := reconsidered_failedValid e
  rw [same, mark] at none_
  cases none_

theorem reconsidered_isValid {e : TreeEntry} {nUpTo : Nat} : e.reconsidered.isValid nUpTo = decide (e.validity ≥ nUpTo) := by
  unfold isValid
  rw [reconsidered_failed, reconsidered_validity]
  rfl

end TreeEntry

namespace BlockTree

open TreeEntry

structure Cleared (t t' : BlockTree) (on : IndexPtr → Prop) : Prop where
  cleared : ∀ p, on p → t'.entry p = (t.entry p).map reconsidered
  kept : ∀ p, ¬on p → t'.entry p = t.entry p
  tip : t'.tip = t.tip

namespace Cleared

variable {t t' t'' : BlockTree} {on on' : IndexPtr → Prop}

theorem trans (first : t.Cleared t' on) (second : t'.Cleared t'' on') : t.Cleared t'' fun p => on p ∨ on' p := by
  have twice : ∀ e : TreeEntry, e.reconsidered.reconsidered = e.reconsidered := fun e => reconsidered_eq (reconsidered_failed e)
  refine ⟨fun p either => ?_, fun p neither => ?_, second.tip.trans first.tip⟩
  · by_cases now : on' p
    · rw [second.cleared p now]
      by_cases before : on p
      · rw [first.cleared p before, Option.map_map]
        congr 1
        funext e
        exact twice e
      · rw [first.kept p before]
    · rw [second.kept p now, first.cleared p (either.resolve_right now)]
  · rw [second.kept p fun now => neither (Or.inr now), first.kept p fun before => neither (Or.inl before)]

theorem congr (same : ∀ p, on p ↔ on' p) (cleared : t.Cleared t' on) : t.Cleared t' on' :=
  ⟨fun p now => cleared.cleared p ((same p).mpr now), fun p never => cleared.kept p fun now => never ((same p).mp now), cleared.tip⟩

section

variable (cleared : t.Cleared t' on)

include cleared

theorem field (f : TreeEntry → α) (same : ∀ e : TreeEntry, f e.reconsidered = f e) (p : IndexPtr) :
    (t'.entry p).map f = (t.entry p).map f := by
  by_cases now : on p
  · rw [cleared.cleared p now, Option.map_map]
    congr 1
    funext e
    exact same e
  · rw [cleared.kept p now]

theorem pointer (f : TreeEntry → Option IndexPtr) (same : ∀ e : TreeEntry, f e.reconsidered = f e) (p : IndexPtr) :
    (t'.entry p).bind f = (t.entry p).bind f := by
  have joined : ∀ o : Option TreeEntry, o.bind f = (o.map f).bind id := fun o => by cases o <;> rfl
  rw [joined, joined, cleared.field f same]

theorem branch_eq (p : IndexPtr) : t'.branch p = t.branch p := by
  have walk : ∀ n p, t'.branchFrom n p = t.branchFrom n p := by
    intro n
    induction n with
    | zero => exact fun _ => rfl
    | succ n ih =>
      intro p
      cases p with
      | none => rfl
      | some p => rw [branchFrom, branchFrom, ih, cleared.pointer pprev fun _ => rfl]
  unfold branch
  rw [walk, cleared.field nHeight fun _ => rfl]

theorem getAncestor_eq (p : IndexPtr) (height : Nat) : t'.getAncestor p height = t.getAncestor p height := by
  have walk : ∀ n p heightWalk, t'.ancestorWalk height n p heightWalk = t.ancestorWalk height n p heightWalk := by
    intro n
    induction n with
    | zero => exact fun _ _ => rfl
    | succ n ih =>
      intro p heightWalk
      simp only [ancestorWalk, ih, cleared.pointer pprev fun _ => rfl, cleared.pointer pskip fun _ => rfl]
  unfold getAncestor
  simp only [walk]
  exact cleared.pointer (fun e => if height > e.nHeight then none else t.ancestorWalk height e.nHeight p e.nHeight) (fun _ => rfl) p

theorem sortsAfterTip_eq (p : IndexPtr) : t'.sortsAfterTip p = t.sortsAfterTip p := by
  -- the order reads the work and the sequence number only
  have order : ∀ q, (t'.entry q).map (fun e => (e.nChainWork, e.nSequenceId)) = (t.entry q).map fun e => (e.nChainWork, e.nSequenceId) :=
    cleared.field _ fun _ => rfl
  have tip := order t.tip
  have here := order p
  unfold sortsAfterTip
  rw [cleared.tip]
  cases tip' : t'.entry t.tip with
  | none =>
    rw [tip', Option.map_none] at tip
    rw [Option.map_eq_none_iff.mp tip.symm]
  | some a' =>
    rw [tip', Option.map_some] at tip
    obtain ⟨a, foundA, sameA⟩ := Option.map_eq_some_iff.mp tip.symm
    rw [foundA]
    cases here' : t'.entry p with
    | none =>
      rw [here', Option.map_none] at here
      rw [Option.map_eq_none_iff.mp here.symm]
    | some b' =>
      rw [here', Option.map_some] at here
      obtain ⟨b, foundB, sameB⟩ := Option.map_eq_some_iff.mp here.symm
      rw [foundB]
      obtain ⟨workA, idA⟩ := Prod.mk.inj sameA
      obtain ⟨workB, idB⟩ := Prod.mk.inj sameB
      simp only [workLess, workA, idA, workB, idB]

end

end Cleared

theorem clearFailure_cleared {t : BlockTree} {e : TreeEntry} (found : t.entry p = some e) :
    t.Cleared (t.clearFailure p e) (· = p) := by
  have entries : ∀ q, (t.clearFailure p e).entry q = if q = p then some e.reconsidered else t.entry q :=
    fun q => StdMap.lookup_insert_ite _ _ _ _
  refine ⟨fun q same => ?_, fun q other => ?_, rfl⟩
  · rw [entries, if_pos same, same, found, Option.map_some]
  · rw [entries, if_neg other]

variable (t : BlockTree) (p pindex : IndexPtr) (nHeight : Nat)

theorem reconsiderAncestor_cleared : t.Cleared (t.reconsiderAncestor p) (· = p) ∧
    (t.reconsiderAncestor p).setBlockIndexCandidates = t.setBlockIndexCandidates := by
  unfold reconsiderAncestor
  split
  · rename_i absent
    refine ⟨⟨fun q same => ?_, fun q _ => rfl, rfl⟩, rfl⟩
    rw [same, absent, Option.map_none]
  · rename_i e found
    split
    · exact ⟨clearFailure_cleared found, rfl⟩
    · rename_i clear
      refine ⟨⟨fun q same => ?_, fun q _ => rfl, rfl⟩, rfl⟩
      rw [same, found, Option.map_some, reconsidered_eq (Bool.not_eq_true _ ▸ clear)]

theorem ancestors_cleared (l : List IndexPtr) : t.Cleared (l.foldl reconsiderAncestor t) (· ∈ l) ∧
    (l.foldl reconsiderAncestor t).setBlockIndexCandidates = t.setBlockIndexCandidates := by
  induction l generalizing t with
  | nil => exact ⟨⟨fun p member => absurd member List.not_mem_nil, fun _ _ => rfl, rfl⟩, rfl⟩
  | cons p rest ih =>
    obtain ⟨first, same⟩ := reconsiderAncestor_cleared t p
    obtain ⟨later, same'⟩ := ih (t.reconsiderAncestor p)
    refine ⟨(first.trans later).congr fun q => ?_, same'.trans same⟩
    rw [List.mem_cons]

def Reopens (p : IndexPtr) : Prop :=
  ∃ e, t.entry p = some e ∧ e.isValid BLOCK_VALID_TRANSACTIONS = false ∧ t.getAncestor p nHeight = some pindex

def Offered : Prop :=
  ∃ e, t.entry p = some e ∧ BLOCK_VALID_TRANSACTIONS ≤ e.validity ∧ e.nChainTx ≠ 0 ∧ t.sortsAfterTip p = true

theorem reconsiderDescendant_cleared (p : IndexPtr) :
    t.Cleared (reconsiderDescendant pindex nHeight t p) (fun q => q = p ∧ t.Reopens pindex nHeight p) ∧
      ∀ q, q ∈ (reconsiderDescendant pindex nHeight t p).setBlockIndexCandidates ↔
        q ∈ t.setBlockIndexCandidates ∨ (q = p ∧ t.Reopens pindex nHeight p ∧ t.Offered p) := by
  unfold reconsiderDescendant
  split
  · rename_i absent
    have never : ¬t.Reopens pindex nHeight p := by
      rintro ⟨e, found, _⟩
      rw [absent] at found
      cases found
    refine ⟨⟨fun q now => absurd now.2 never, fun q _ => rfl, rfl⟩, fun q => ?_⟩
    simp [never]
  · rename_i e found
    split
    · rename_i reopened
      simp only [Bool.and_eq_true, Bool.not_eq_true', beq_iff_eq] at reopened
      have reopens : t.Reopens pindex nHeight p := ⟨e, found, reopened⟩
      have cleared := clearFailure_cleared found
      have offered : (e.reconsidered.isValid BLOCK_VALID_TRANSACTIONS && decide (e.nChainTx ≠ 0) &&
          (t.clearFailure p e).sortsAfterTip p) = true ↔ t.Offered p := by
        rw [reconsidered_isValid, cleared.sortsAfterTip_eq, Bool.and_eq_true, Bool.and_eq_true, decide_eq_true_iff, decide_eq_true_iff]
        constructor
        · rintro ⟨⟨valid, linked⟩, after⟩
          exact ⟨e, found, valid, linked, after⟩
        · rintro ⟨e', found', valid, linked, after⟩
          rw [found] at found'
          obtain rfl := Option.some.inj found'
          exact ⟨⟨valid, linked⟩, after⟩
      -- the entries and the tip are those after the clearing in every branch
      have branches : ∀ u v : BlockTree, u.mapBlockIndex = (t.clearFailure p e).mapBlockIndex → u.tip = t.tip →
          t.Cleared u (fun q => q = p ∧ t.Reopens pindex nHeight p) := by
        intro u v map tip
        refine ⟨fun q now => ?_, fun q never => ?_, tip⟩
        · rw [← cleared.cleared q now.1, entry, entry, map]
        · rw [← cleared.kept q fun same => never ⟨same, reopens⟩, entry, entry, map]
      dsimp only
      constructor
      · apply branches _ t
        · split_ifs <;> rfl
        · split_ifs <;> rfl
      · intro q
        have members : ∀ u : BlockTree, (if u.pindexBestInvalid = some p then { u with pindexBestInvalid := none } else u).setBlockIndexCandidates =
            u.setBlockIndexCandidates := by
          intro u
          split <;> rfl
        rw [members]
        split
        · rename_i now
          have isOffered := offered.mp now
          simp only [addCandidate, clearFailure, Finset.mem_insert, reopens, isOffered, and_self, and_true]
          exact or_comm
        · rename_i never
          have notOffered := mt offered.mpr never
          simp only [clearFailure, notOffered, and_false, or_false]
    · rename_i stays
      have never : ¬t.Reopens pindex nHeight p := by
        rintro ⟨e', found', invalid, ancestor⟩
        rw [found] at found'
        obtain rfl := Option.some.inj found'
        apply stays
        simp [invalid, ancestor]
      refine ⟨⟨fun q now => absurd now.2 never, fun q _ => rfl, rfl⟩, fun q => ?_⟩
      simp [never]

theorem descendants_cleared (t : BlockTree) (l : List IndexPtr) (nodup : l.Nodup) :
    t.Cleared (l.foldl (reconsiderDescendant pindex nHeight) t) (fun q => q ∈ l ∧ t.Reopens pindex nHeight q) ∧
      ∀ q, q ∈ (l.foldl (reconsiderDescendant pindex nHeight) t).setBlockIndexCandidates ↔
        q ∈ t.setBlockIndexCandidates ∨ (q ∈ l ∧ t.Reopens pindex nHeight q ∧ t.Offered q) := by
  induction l generalizing t with
  | nil => exact ⟨⟨fun p now => absurd now.1 List.not_mem_nil, fun _ _ => rfl, rfl⟩, fun q => by simp⟩
  | cons p rest ih =>
    obtain ⟨absent, nodup⟩ := List.nodup_cons.mp nodup
    obtain ⟨first, added⟩ := reconsiderDescendant_cleared t pindex nHeight p
    obtain ⟨later, added'⟩ := ih (reconsiderDescendant pindex nHeight t p) nodup
    have untouched : ∀ q ∈ rest, (reconsiderDescendant pindex nHeight t p).entry q = t.entry q := by
      intro q member
      apply first.kept
      rintro ⟨rfl, _⟩
      exact absent member
    have reopens : ∀ q ∈ rest, ((reconsiderDescendant pindex nHeight t p).Reopens pindex nHeight q ↔ t.Reopens pindex nHeight q) := by
      intro q member
      unfold Reopens
      rw [untouched q member, first.getAncestor_eq]
    have offered : ∀ q ∈ rest, ((reconsiderDescendant pindex nHeight t p).Offered q ↔ t.Offered q) := by
      intro q member
      unfold Offered
      rw [untouched q member, first.sortsAfterTip_eq]
    constructor
    · refine (first.trans later).congr fun q => ?_
      rw [List.mem_cons]
      constructor
      · rintro (⟨rfl, now⟩ | ⟨member, now⟩)
        · exact ⟨Or.inl rfl, now⟩
        · exact ⟨Or.inr member, (reopens q member).mp now⟩
      · rintro ⟨rfl | member, now⟩
        · exact Or.inl ⟨rfl, now⟩
        · exact Or.inr ⟨member, (reopens q member).mpr now⟩
    · intro q
      rw [List.foldl_cons, added', added, List.mem_cons]
      constructor
      · rintro ((old | ⟨rfl, now⟩) | ⟨member, now, fit⟩)
        · exact Or.inl old
        · exact Or.inr ⟨Or.inl rfl, now⟩
        · exact Or.inr ⟨Or.inr member, (reopens q member).mp now, (offered q member).mp fit⟩
      · rintro (old | ⟨rfl | member, now, fit⟩)
        · exact Or.inl (Or.inl old)
        · exact Or.inl (Or.inr ⟨rfl, now, fit⟩)
        · exact Or.inr ⟨member, (reopens q member).mpr now, (offered q member).mpr fit⟩

theorem mem_keys {t : BlockTree} {p : IndexPtr} (found : t.entry p = some e) : p ∈ t.mapBlockIndex.keys :=
  AList.mem_keys.mp (StdMap.mem_of_lookup found)

section Checked

variable {t : BlockTree} (checked : t.checkBlockIndex = true)
include checked

theorem checkEntry_of_entry {p : IndexPtr} (found : t.entry p = some e) : t.checkEntry p e = true := by
  unfold checkBlockIndex at checked
  simp only [Bool.and_eq_true, List.all_eq_true] at checked
  exact checked.2 ⟨p, e⟩ (StdMap.mem_entries_iff.mpr found)

theorem rooted_of_checked : t.Rooted := by
  intro p e found
  have passes := checkEntry_of_entry checked found
  unfold checkEntry at passes
  simp only [Bool.and_eq_true] at passes
  have parent := passes.1.1.1.1.1.1.1.1.1.1.1
  cases up : e.pprev with
  | none =>
    rw [up] at parent
    simp only [Bool.and_eq_true, decide_eq_true_eq] at parent
    exact parent.2
  | some q =>
    rw [up] at parent
    cases here : t.entry q with
    | none => simp [here] at parent
    | some above =>
      simp only [here, Option.any_some, Bool.and_eq_true, decide_eq_true_eq] at parent
      exact ⟨above, here, parent.1⟩

theorem validity_of_checked {p : IndexPtr} (found : t.entry p = some e) (linked : e.nChainTx ≠ 0) :
    BLOCK_VALID_TRANSACTIONS ≤ e.validity := by
  have passes := checkEntry_of_entry checked found
  unfold checkEntry at passes
  simp only [Bool.and_eq_true] at passes
  have stored := passes.1.1.1.1.1.1.1.1.1.1.2
  have valid := passes.1.1.1.1.1.1.1.1.1.2
  have missing := passes.1.1.1.1.1.1.1.2
  have data : e.haveData = true := by
    by_contra without
    have first : (t.branch p).any (fun a => (t.entry a).any fun a => !a.haveData) = true :=
      List.any_eq_true.mpr ⟨p, (rooted_of_checked checked).self_mem found, by simp [found, without]⟩
    rw [first] at missing
    simp [linked] at missing
  rw [data] at stored
  have some_ : e.nTx > 0 := by
    have nonzero : e.nTx ≠ 0 := by simpa using stored
    omega
  simpa [some_] using valid

variable (skips : t.SkipsBuilt) {pindex : IndexPtr} {entry_ : TreeEntry} (present : t.entry pindex = some entry_)
include skips present

/-- What is left of the tree: the marks beside the branch and above it, and the candidates before and those that descend from the
block. -/
theorem reconsiderBlock_spec : t.Cleared (t.reconsiderBlock pindex) (fun p =>
      (∃ e, t.entry p = some e ∧ e.isValid BLOCK_VALID_TRANSACTIONS = false ∧ pindex ∈ t.branch p) ∨ p ∈ t.branch pindex) ∧
    ∀ p, p ∈ (t.reconsiderBlock pindex).setBlockIndexCandidates ↔ p ∈ t.setBlockIndexCandidates ∨
      ((∃ e, t.entry p = some e ∧ e.isValid BLOCK_VALID_TRANSACTIONS = false ∧ pindex ∈ t.branch p) ∧ t.Offered p) := by
  have rooted := rooted_of_checked checked
  have height : ((t.entry pindex).map TreeEntry.nHeight).getD 0 = entry_.nHeight := by rw [present]; rfl
  obtain ⟨first, added⟩ := descendants_cleared pindex entry_.nHeight t t.mapBlockIndex.keys t.mapBlockIndex.keys_nodup
  obtain ⟨second, same⟩ := ancestors_cleared (t.mapBlockIndex.keys.foldl (reconsiderDescendant pindex entry_.nHeight) t)
    (t.branch pindex)
  have reopens : ∀ p, p ∈ t.mapBlockIndex.keys ∧ t.Reopens pindex entry_.nHeight p ↔
      ∃ e, t.entry p = some e ∧ e.isValid BLOCK_VALID_TRANSACTIONS = false ∧ pindex ∈ t.branch p := by
    intro p
    constructor
    · rintro ⟨_, e, found, invalid, ancestor⟩
      exact ⟨e, found, invalid, (getAncestor_eq_iff rooted skips found present).mp ancestor⟩
    · rintro ⟨e, found, invalid, member⟩
      exact ⟨mem_keys found, e, found, invalid, (getAncestor_eq_iff rooted skips found present).mpr member⟩
  unfold reconsiderBlock
  rw [height]
  dsimp only
  rw [first.branch_eq]
  constructor
  · refine (first.trans second).congr fun p => ?_
    rw [reopens]
  · intro p
    rw [same, added, ← and_assoc, reopens]

theorem mark_stays_iff {mark : TreeEntry → Bool} (part : ∀ e, mark e = true → e.failed = true)
    (cleared : ∀ e : TreeEntry, mark e.reconsidered = false) (p : IndexPtr) :
    (∃ e, (t.reconsiderBlock pindex).entry p = some e ∧ mark e = true) ↔
      (∃ e, t.entry p = some e ∧ mark e = true) ∧ pindex ∉ t.branch p ∧ p ∉ t.branch pindex := by
  obtain ⟨after, _⟩ := reconsiderBlock_spec checked skips present
  constructor
  · rintro ⟨e, found, marked⟩
    have off : ¬((∃ e, t.entry p = some e ∧ e.isValid BLOCK_VALID_TRANSACTIONS = false ∧ pindex ∈ t.branch p) ∨ p ∈ t.branch pindex) := by
      intro on
      rw [after.cleared p on] at found
      obtain ⟨before, _, rfl⟩ := Option.map_eq_some_iff.mp found
      rw [cleared] at marked
      cases marked
    rw [after.kept p off] at found
    refine ⟨⟨e, found, marked⟩, fun descends => off (Or.inl ⟨e, found, ?_, descends⟩), fun above => off (Or.inr above)⟩
    unfold isValid
    rw [if_pos (part e marked)]
  · rintro ⟨⟨e, found, marked⟩, notBelow, notAbove⟩
    refine ⟨e, ?_, marked⟩
    rw [after.kept p, found]
    rintro (⟨_, _, _, descends⟩ | above)
    · exact notBelow descends
    · exact notAbove above

/-- Reconsidering a block leaves a consistent tree exactly when no marked sibling of the branch owes its mark to the branch alone, and
every better block it frees is a candidate already or a marked descendant. -/
theorem reconsider_consistent_iff :
    (t.reconsiderBlock pindex).Consistent ↔ t.SiblingsFailAlone pindex ∧ t.FreedAreOffered pindex := by
  have rooted := rooted_of_checked checked
  obtain ⟨after, candidates⟩ := reconsiderBlock_spec checked skips present
  have failed : ∀ p, (t.reconsiderBlock pindex).Failed p ↔ t.Failed p ∧ pindex ∉ t.branch p ∧ p ∉ t.branch pindex :=
    mark_stays_iff checked skips present (fun _ => id) reconsidered_failed
  have failedValid : ∀ p, (t.reconsiderBlock pindex).FailedValid p ↔ t.FailedValid p ∧ pindex ∉ t.branch p ∧ p ∉ t.branch pindex :=
    mark_stays_iff checked skips present (fun _ => failed_of_failedValid) reconsidered_failedValid
  -- a linked block has its transactions, so that only a mark keeps it from being valid
  have offered : ∀ p e, t.entry p = some e → e.nChainTx ≠ 0 → t.sortsAfterTip p = true →
      (p ∈ (t.reconsiderBlock pindex).setBlockIndexCandidates ↔
        p ∈ t.setBlockIndexCandidates ∨ (pindex ∈ t.branch p ∧ e.failed = true)) := by
    intro p e found linked later
    have valid := validity_of_checked checked found linked
    rw [candidates]
    refine or_congr_right ⟨?_, ?_⟩
    · rintro ⟨⟨e', found', invalid, descends⟩, _⟩
      rw [found] at found'
      obtain rfl := Option.some.inj found'
      refine ⟨descends, ?_⟩
      by_contra clear
      unfold isValid at invalid
      rw [if_neg clear] at invalid
      exact absurd valid (of_decide_eq_false invalid)
    · rintro ⟨descends, marked⟩
      refine ⟨⟨e, found, ?_, descends⟩, e, found, valid, linked, later⟩
      unfold isValid
      rw [if_pos marked]
  have linkedSame : ∀ p e', (t.reconsiderBlock pindex).entry p = some e' → ∃ e, t.entry p = some e ∧ e.nChainTx = e'.nChainTx := by
    intro p e' found
    have same := after.field nChainTx (fun _ => rfl) p
    rw [found, Option.map_some] at same
    exact Option.map_eq_some_iff.mp same.symm
  constructor
  · rintro ⟨marks, offers⟩
    constructor
    · intro p marked notBelow notAbove
      obtain ⟨a, member, invalid⟩ := marks p ((failed p).mpr ⟨marked, notBelow, notAbove⟩)
      rw [after.branch_eq] at member
      obtain ⟨invalid, _, off⟩ := (failedValid a).mp invalid
      exact ⟨a, member, invalid, off⟩
    · intro p e found freed linked later
      have same := after.field nChainTx (fun _ => rfl) p
      rw [found, Option.map_some] at same
      obtain ⟨e', found', equal⟩ := Option.map_eq_some_iff.mp same
      apply (offered p e found linked later).mp
      apply offers p e' found'
      · intro a member invalid
        rw [after.branch_eq] at member
        obtain ⟨invalid, notBelow, notAbove⟩ := (failedValid a).mp invalid
        exact (freed a member invalid).elim notBelow notAbove
      · rw [equal]
        exact linked
      · rw [after.sortsAfterTip_eq]
        exact later
  · rintro ⟨siblings, freed⟩
    constructor
    · intro p marked
      obtain ⟨marked, notBelow, notAbove⟩ := (failed p).mp marked
      obtain ⟨a, member, invalid, off⟩ := siblings p marked notBelow notAbove
      obtain ⟨e, found, _⟩ := marked
      refine ⟨a, by rw [after.branch_eq]; exact member, (failedValid a).mpr ⟨invalid, fun descends => notBelow ?_, off⟩⟩
      exact rooted.branch_trans found member descends
    · intro p e' found' free linked later
      obtain ⟨e, found, equal⟩ := linkedSame p e' found'
      rw [after.sortsAfterTip_eq] at later
      rw [← equal] at linked
      apply (offered p e found linked later).mpr
      apply freed p e found _ linked later
      intro a member invalid
      by_contra off
      rw [not_or] at off
      exact free a (by rw [after.branch_eq]; exact member) ((failedValid a).mpr ⟨invalid, off⟩)

end Checked

def twinTree : BlockTree where
  mapBlockIndex :=
    (((AList.insert 0 ⟨none, none, 0, 1, 1, 1, 13, 0⟩ ∅).insert 1 ⟨some 0, some 0, 1, 2, 1, 2, 45, 1⟩).insert 2
      ⟨some 1, some 0, 2, 3, 1, 3, 77, 2⟩).insert 3 ⟨some 1, some 0, 2, 3, 1, 3, 77, 3⟩
  genesis := 0
  tip := 0
  setBlockIndexCandidates := {0}

theorem twinTree_skips : twinTree.SkipsBuilt := by
  intro p e q found up
  have listed := StdMap.mem_entries_iff.mpr found
  have entries : twinTree.mapBlockIndex.entries = [⟨3, ⟨some 1, some 0, 2, 3, 1, 3, 77, 3⟩⟩, ⟨2, ⟨some 1, some 0, 2, 3, 1, 3, 77, 2⟩⟩,
      ⟨1, ⟨some 0, some 0, 1, 2, 1, 2, 45, 1⟩⟩, ⟨0, ⟨none, none, 0, 1, 1, 1, 13, 0⟩⟩] := rfl
  rw [entries] at listed
  simp only [List.mem_cons, Sigma.mk.injEq, heq_eq_eq, List.not_mem_nil, or_false] at listed
  rcases listed with ⟨rfl, rfl⟩ | ⟨rfl, rfl⟩ | ⟨rfl, rfl⟩ | ⟨rfl, rfl⟩ <;> cases up <;> exact ⟨0, _, rfl, by decide, rfl, by decide⟩

theorem first_twin_reconsidered : (twinTree.reconsiderBlock 1).Consistent ↔
    twinTree.SiblingsFailAlone 1 ∧ twinTree.FreedAreOffered 1 :=
  reconsider_consistent_iff (by decide) twinTree_skips rfl

/-- Reconsidering one child clears the invalid block and leaves the mark of the other child. -/
theorem twin_left_marked : twinTree.checkBlockIndex = true ∧ twinTree.SkipsBuilt ∧
    (twinTree.reconsiderBlock 2).checkBlockIndex = false ∧ ¬(twinTree.reconsiderBlock 2).Consistent := by
  refine ⟨by decide, twinTree_skips, by decide, fun consistent => ?_⟩
  obtain ⟨a, member, e, found, invalid⟩ := consistent.marks 3 ⟨⟨some 1, some 0, 2, 3, 1, 3, 77, 3⟩, by decide, by decide⟩
  have clear : ∀ a ∈ (twinTree.reconsiderBlock 2).branch 3, ((twinTree.reconsiderBlock 2).entry a).any failedValid = false := by decide
  have here := clear a member
  rw [found, Option.any_some, invalid] at here
  cases here

end BlockTree

end SchillingCoin
