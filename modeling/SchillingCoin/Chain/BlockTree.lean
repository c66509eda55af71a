import Mathlib.Data.Finset.Basic
import SchillingCoin.Lib.StdMap

/-!
The tree of block index entries and its candidates for the tip, after `CBlockIndex` in `chain.h`, the skip list and
`CBlockIndexWorkComparator` in `main.cpp`. Here an entry is known by its address.
-/

namespace SchillingCoin

abbrev IndexPtr := Nat

def BLOCK_VALID_TREE : Nat := 2
def BLOCK_VALID_TRANSACTIONS : Nat := 3
def BLOCK_VALID_CHAIN : Nat := 4
def BLOCK_VALID_SCRIPTS : Nat := 5
def BLOCK_VALID_MASK : BitVec 32 := 7
def BLOCK_HAVE_DATA : BitVec 32 := 8
def BLOCK_FAILED_VALID : BitVec 32 := 32
def BLOCK_FAILED_CHILD : BitVec 32 := 64
def BLOCK_FAILED_MASK : BitVec 32 := BLOCK_FAILED_VALID ||| BLOCK_FAILED_CHILD

structure TreeEntry where
  pprev : Option IndexPtr
  pskip : Option IndexPtr
  nHeight : Nat
  nChainWork : Nat
  nTx : Nat
  nChainTx : Nat
  nStatus : BitVec 32
  nSequenceId : Nat
  deriving DecidableEq, Repr

namespace TreeEntry

variable (e : TreeEntry)

def failed : Bool := e.nStatus &&& BLOCK_FAILED_MASK ≠ 0

def failedValid : Bool := e.nStatus &&& BLOCK_FAILED_VALID ≠ 0

def haveData : Bool := e.nStatus &&& BLOCK_HAVE_DATA ≠ 0

def validity : Nat := (e.nStatus &&& BLOCK_VALID_MASK).toNat

def isValid (nUpTo : Nat) : Bool := if e.failed then false else decide (e.validity ≥ nUpTo)

def reconsidered : TreeEntry := { e with nStatus := e.nStatus &&& ~~~BLOCK_FAILED_MASK }

end TreeEntry

structure BlockTree where
  mapBlockIndex : StdMap IndexPtr TreeEntry
  /-- `chainActive.Genesis()` and `chainActive.Tip()`. -/
  genesis : IndexPtr
  tip : IndexPtr
  setBlockIndexCandidates : Finset IndexPtr
  pindexBestInvalid : Option IndexPtr := none
  setDirtyBlockIndex : Finset IndexPtr := ∅
  mapBlocksUnlinked : List (Option IndexPtr × IndexPtr) := []

def workLess (pa : IndexPtr) (a : TreeEntry) (pb : IndexPtr) (b : TreeEntry) : Bool :=
  if a.nChainWork > b.nChainWork then false
  else if a.nChainWork < b.nChainWork then true
  else if a.nSequenceId < b.nSequenceId then false
  else if a.nSequenceId > b.nSequenceId then true
  else decide (pa > pb)

namespace BlockTree

variable (t : BlockTree) (p : IndexPtr)

def entry : Option TreeEntry := t.mapBlockIndex.lookup p

def sortsAfterTip : Bool :=
  match t.entry t.tip, t.entry p with
  | some tip, some e => workLess t.tip tip p e
  | _, _ => false

def branchFrom (t : BlockTree) : Nat → Option IndexPtr → List IndexPtr
  | 0, _ => []
  | _, none => []
  | n + 1, some p => p :: t.branchFrom n ((t.entry p).bind TreeEntry.pprev)

/-- An entry and its ancestors, down to the root. The walk takes as many steps as the entry is high. -/
def branch : List IndexPtr := t.branchFrom (((t.entry p).map TreeEntry.nHeight).getD 0 + 1) (some p)

def invertLowestOne (n : Nat) : Nat := n &&& (n - 1)

def getSkipHeight (height : Nat) : Nat :=
  if height < 2 then 0
  else if height % 2 = 1 then invertLowestOne (invertLowestOne (height - 1)) + 1
  else invertLowestOne height

/-- The loop of `GetAncestor`; every step goes down. `none` is a null pointer that is followed. -/
def ancestorWalk (t : BlockTree) (height : Nat) : Nat → IndexPtr → Nat → Option IndexPtr
  | 0, pindexWalk, _ => some pindexWalk
  | n + 1, pindexWalk, heightWalk =>
    if heightWalk > height then
      let heightSkip := getSkipHeight heightWalk
      let heightSkipPrev := getSkipHeight (heightWalk - 1)
      if heightSkip = height ∨ (heightSkip > height ∧ ¬(heightSkipPrev + 2 < heightSkip ∧ heightSkipPrev ≥ height)) then
        ((t.entry pindexWalk).bind TreeEntry.pskip).bind fun pskip => t.ancestorWalk height n pskip heightSkip
      else ((t.entry pindexWalk).bind TreeEntry.pprev).bind fun pprev => t.ancestorWalk height n pprev (heightWalk - 1)
    else some pindexWalk

def getAncestor (height : Nat) : Option IndexPtr :=
  (t.entry p).bind fun e => if height > e.nHeight then none else t.ancestorWalk height e.nHeight p e.nHeight

theorem getSkipHeight_lt (positive : 0 < height) : getSkipHeight height < height := by
  have lower : ∀ n, invertLowestOne n ≤ n - 1 := fun n => Nat.and_le_right
  unfold getSkipHeight
  split
  · exact positive
  · split
    · have outer := lower (invertLowestOne (height - 1))
      have inner := lower (height - 1)
      omega
    · have once := lower height
      omega

def Rooted : Prop :=
  ∀ p e, t.entry p = some e → match e.pprev with
    | none => e.nHeight = 0
    | some q => ∃ parent, t.entry q = some parent ∧ e.nHeight = parent.nHeight + 1

/-- What `BuildSkip` makes of the skip pointers. -/
def SkipsBuilt : Prop :=
  ∀ p e q, t.entry p = some e → e.pprev = some q → ∃ s skipped, e.pskip = some s ∧ s ∈ t.branch q ∧ t.entry s = some skipped ∧
    skipped.nHeight = getSkipHeight e.nHeight

variable {t : BlockTree} {p a : IndexPtr} {e : TreeEntry}

section

variable (rooted : t.Rooted)

include rooted

theorem Rooted.branch_cons (found : t.entry p = some e) : t.branch p = p :: (e.pprev.map t.branch).getD [] := by
  have parent := rooted p e found
  unfold branch
  rw [found, Option.map_some, Option.getD_some, branchFrom, found, Option.bind_some]
  cases above : e.pprev with
  | none => cases e.nHeight <;> rfl
  | some q =>
    rw [above] at parent
    obtain ⟨entry, here, height⟩ := parent
    rw [Option.map_some, Option.getD_some, height, here, Option.map_some, Option.getD_some]

theorem Rooted.self_mem (found : t.entry p = some e) : p ∈ t.branch p := by
  rw [rooted.branch_cons found]
  exact List.mem_cons_self

theorem Rooted.on_branch (found : t.entry p = some e) (member : a ∈ t.branch p) :
    ∃ above, t.entry a = some above ∧ (a = p ∨ above.nHeight < e.nHeight) := by
  induction height : e.nHeight generalizing p e with
  | zero =>
    have parent := rooted p e found
    rw [rooted.branch_cons found] at member
    cases above : e.pprev with
    | none =>
      rw [above] at member
      obtain rfl := List.mem_singleton.mp member
      exact ⟨e, found, Or.inl rfl⟩
    | some q =>
      rw [above] at parent
      obtain ⟨entry, here, higher⟩ := parent
      omega
  | succ n ih =>
    have parent := rooted p e found
    rw [rooted.branch_cons found] at member
    cases above : e.pprev with
    | none =>
      rw [above] at parent
      simp only at parent
      omega
    | some q =>
      rw [above] at parent member
      obtain ⟨entry, here, higher⟩ := parent
      rcases List.mem_cons.mp member with rfl | member
      · exact ⟨e, found, Or.inl rfl⟩
      · obtain ⟨ancestor, there, low⟩ := ih here member (by omega)
        refine ⟨ancestor, there, Or.inr ?_⟩
        rcases low with rfl | low
        · rw [here] at there
          obtain rfl := Option.some.inj there
          omega
        · omega

theorem Rooted.branch_trans (found : t.entry p = some e) (upper : b ∈ t.branch p) (lower : a ∈ t.branch b) :
    a ∈ t.branch p := by
  induction height : e.nHeight using Nat.strong_induction_on generalizing p e with
  | _ n ih =>
    have parent := rooted p e found
    rw [rooted.branch_cons found] at upper ⊢
    cases above : e.pprev with
    | none =>
      rw [above] at upper
      obtain rfl := List.mem_singleton.mp upper
      rw [rooted.branch_cons found, above] at lower
      exact lower
    | some q =>
      rw [above] at parent upper
      obtain ⟨entry, here, higher⟩ := parent
      rcases List.mem_cons.mp upper with rfl | upper
      · rw [rooted.branch_cons found, above] at lower
        exact lower
      · exact List.mem_cons_of_mem _ (ih entry.nHeight (by omega) here upper rfl)

theorem Rooted.height_unique (found : t.entry p = some e) (left : a ∈ t.branch p) (right : b ∈ t.branch p)
    (foundA : t.entry a = some ea) (foundB : t.entry b = some eb) (same : ea.nHeight = eb.nHeight) : a = b := by
  induction height : e.nHeight using Nat.strong_induction_on generalizing p e with
  | _ n ih =>
    have parent := rooted p e found
    rw [rooted.branch_cons found] at left right
    cases above : e.pprev with
    | none =>
      rw [above] at left right
      rw [List.mem_singleton.mp left, List.mem_singleton.mp right]
    | some q =>
      rw [above] at parent left right
      obtain ⟨entry, here, higher⟩ := parent
      have below : ∀ c ec, c ∈ t.branch q → t.entry c = some ec → ec.nHeight < e.nHeight := by
        intro c ec member foundC
        obtain ⟨other, found', low⟩ := rooted.on_branch here member
        rw [foundC] at found'
        obtain rfl := Option.some.inj found'
        rcases low with rfl | low
        · rw [here] at foundC
          obtain rfl := Option.some.inj foundC
          omega
        · omega
      rcases List.mem_cons.mp left with first | left'
      · rcases List.mem_cons.mp right with second | right'
        · rw [first, second]
        · rw [first, found] at foundA
          obtain rfl := Option.some.inj foundA
          have lower := below b eb right' foundB
          omega
      · rcases List.mem_cons.mp right with second | right'
        · rw [second, found] at foundB
          obtain rfl := Option.some.inj foundB
          have lower := below a ea left' foundA
          omega
        · exact ih entry.nHeight (by omega) here left' right' rfl

theorem ancestorWalk_spec (skips : t.SkipsBuilt) (found : t.entry p = some e) (high : height ≤ e.nHeight)
    (enough : e.nHeight ≤ height + n) :
    ∃ a ea, t.ancestorWalk height n p e.nHeight = some a ∧ a ∈ t.branch p ∧ t.entry a = some ea ∧ ea.nHeight = height := by
  induction n generalizing p e with
  | zero => exact ⟨p, e, rfl, rooted.self_mem found, found, by omega⟩
  | succ n ih =>
    unfold ancestorWalk
    by_cases above : e.nHeight > height
    · rw [if_pos above]
      have parent := rooted p e found
      cases up : e.pprev with
      | none =>
        rw [up] at parent
        simp only at parent
        omega
      | some q =>
        rw [up] at parent
        obtain ⟨entry, here, higher⟩ := parent
        have tail : ∀ a, a ∈ t.branch q → a ∈ t.branch p := by
          intro a member
          rw [rooted.branch_cons found, up]
          exact List.mem_cons_of_mem _ member
        obtain ⟨s, skipped, skip, inside, there, lower⟩ := skips p e q found up
        have drop := @getSkipHeight_lt e.nHeight (by omega)
        dsimp only
        split
        · rename_i follow
          obtain ⟨a, ea, walked, member, found', equal⟩ := ih there (by omega) (by omega)
          refine ⟨a, ea, ?_, tail a (rooted.branch_trans here inside member), found', equal⟩
          rw [found, Option.bind_some, skip, Option.bind_some, ← lower]
          exact walked
        · obtain ⟨a, ea, walked, member, found', equal⟩ := ih here (by omega) (by omega)
          refine ⟨a, ea, ?_, tail a member, found', equal⟩
          have before : e.nHeight - 1 = entry.nHeight := by omega
          rw [found, Option.bind_some, up, Option.bind_some, before]
          exact walked
    · rw [if_neg above]
      exact ⟨p, e, rfl, rooted.self_mem found, found, by omega⟩

theorem getAncestor_eq_iff (skips : t.SkipsBuilt) (found : t.entry p = some e) (foundA : t.entry a = some ea) :
    t.getAncestor p ea.nHeight = some a ↔ a ∈ t.branch p := by
  unfold getAncestor
  rw [found, Option.bind_some]
  by_cases low : ea.nHeight ≤ e.nHeight
  · rw [if_neg (by omega)]
    obtain ⟨b, eb, walked, member, foundB, equal⟩ := ancestorWalk_spec rooted skips found low (Nat.le_add_left _ _)
    rw [walked]
    constructor
    · intro same
      rw [← Option.some.inj same]
      exact member
    · intro member'
      rw [rooted.height_unique found member member' foundB foundA equal]
  · rw [if_pos (by omega)]
    constructor
    · nofun
    · intro member
      obtain ⟨other, found', lower⟩ := rooted.on_branch found member
      rw [foundA] at found'
      obtain rfl := Option.some.inj found'
      rcases lower with rfl | lower
      · rw [found] at foundA
        obtain rfl := Option.some.inj foundA
        omega
      · omega

end

end BlockTree

end SchillingCoin
