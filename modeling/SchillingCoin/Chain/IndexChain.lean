import SchillingCoin.Chain.SkipList
import SchillingCoin.Primitives.Transaction

/-!
The chain of a tip by height, after `CChain` in `chain.h` and `chain.cpp`, and `FindForkInGlobalIndex` in `main.cpp`. In the functions
`none` is a null pointer that is read, a position outside of `vChain`, or a loop that is not over after its bound.
-/

namespace SchillingCoin

structure BlockMap where
  tree : BlockTree
  phashBlock : IndexPtr → uint256
  mapBlockIndex : StdMap uint256 IndexPtr
  keyed : ∀ hash p, mapBlockIndex.lookup hash = some p ↔ (tree.entry p).isSome ∧ phashBlock p = hash

structure IndexChain where
  vChain : List (Option IndexPtr) := []
  deriving DecidableEq, Repr

namespace IndexChain

variable (c : IndexChain) (t : BlockTree)

def genesis : Option IndexPtr := c.vChain.head?.join

def tip : Option IndexPtr := c.vChain.getLast?.join

def at_ (nHeight : Int) : Option IndexPtr :=
  if nHeight < 0 ∨ nHeight ≥ c.vChain.length then none else c.vChain[nHeight.toNat]?.join

def contains (c : IndexChain) (pindex : IndexPtr) : Option Bool :=
  (t.entry pindex).map fun e => decide (c.at_ e.nHeight = some pindex)

def height : Int := c.vChain.length - 1

def resize (vChain : List (Option IndexPtr)) (size : Nat) : List (Option IndexPtr) :=
  vChain.take size ++ List.replicate (size - vChain.length) none

def setTipLoop (t : BlockTree) : (bound : Nat) → List (Option IndexPtr) → Option IndexPtr → Option (List (Option IndexPtr))
  | _, vChain, none => some vChain
  | 0, _, some _ => none
  | n + 1, vChain, some pindex =>
    (t.entry pindex).bind fun e =>
      vChain[e.nHeight]?.bind fun here =>
        if here = some pindex then some vChain else setTipLoop t n (vChain.set e.nHeight (some pindex)) e.pprev

def setTip (c : IndexChain) : Option IndexPtr → Option IndexChain
  | none => some { vChain := [] }
  | some pindex =>
    (t.entry pindex).bind fun e => (setTipLoop t (e.nHeight + 1) (resize c.vChain (e.nHeight + 1)) (some pindex)).map IndexChain.mk

def stepBack (c : IndexChain) (pindex : IndexPtr) (nHeight : Int) : Option (Option IndexPtr) :=
  (contains t c pindex).bind fun inChain => if inChain then some (c.at_ nHeight) else t.getAncestorAt pindex nHeight

def locatorLoop (m : BlockMap) (c : IndexChain) : (bound : Nat) → (vHave : List uint256) → (nStep : Nat) → Option IndexPtr →
    Option (List uint256)
  | _, vHave, _, none => some vHave
  | 0, _, _, some _ => none
  | n + 1, vHave, nStep, some pindex =>
    (m.tree.entry pindex).bind fun e =>
      let vHave := vHave ++ [m.phashBlock pindex]
      if e.nHeight = 0 then some vHave
      else (stepBack m.tree c pindex (max ((e.nHeight : Int) - nStep) 0)).bind fun next =>
        locatorLoop m c n vHave (if vHave.length > 10 then nStep * 2 else nStep) next

/-- A null pointer stands for the tip. There is a round at most for each height. -/
def getLocator (m : BlockMap) (c : IndexChain) (pindex : Option IndexPtr) : Option (List uint256) :=
  let start := pindex.or c.tip
  locatorLoop m c (((start.bind m.tree.entry).map TreeEntry.nHeight).getD 0 + 1) [] 1 start

def findForkLoop (t : BlockTree) (c : IndexChain) : (bound : Nat) → Option IndexPtr → Option (Option IndexPtr)
  | _, none => some none
  | 0, some _ => none
  | n + 1, some pindex =>
    (t.entry pindex).bind fun e =>
      (contains t c pindex).bind fun inChain => if inChain then some (some pindex) else findForkLoop t c n e.pprev

def findFork (c : IndexChain) : Option IndexPtr → Option (Option IndexPtr)
  | none => some none
  | some pindex =>
    (t.entry pindex).bind fun e =>
      (if (e.nHeight : Int) > c.height then t.getAncestorAt pindex c.height else some (some pindex)).bind fun start =>
        findForkLoop t c (e.nHeight + 1) start

def findForkInGlobalIndex (m : BlockMap) (c : IndexChain) : (vHave : List uint256) → Option (Option IndexPtr)
  | [] => some c.genesis
  | hash :: vHave =>
    match m.mapBlockIndex.lookup hash with
    | none => findForkInGlobalIndex m c vHave
    | some pindex => (contains m.tree c pindex).bind fun inChain => if inChain then some (some pindex) else findForkInGlobalIndex m c vHave

end IndexChain

namespace BlockTree

def IsAncestor (t : BlockTree) (a p : IndexPtr) : Prop := ∃ n, t.walkBack n p = some a

structure LastCommon (t : BlockTree) (f p q : IndexPtr) : Prop where
  left : t.IsAncestor f p
  right : t.IsAncestor f q
  last : ∀ g, t.IsAncestor g p → t.IsAncestor g q → t.IsAncestor g f

variable {t : BlockTree}

theorem isAncestor_refl (t : BlockTree) (p : IndexPtr) : t.IsAncestor p p := ⟨0, rfl⟩

variable {a p : IndexPtr} {e : TreeEntry}

theorem IsAncestor.trans (lower : t.IsAncestor a b) (upper : t.IsAncestor b p) : t.IsAncestor a p := by
  obtain ⟨m, first⟩ := upper
  obtain ⟨n, second⟩ := lower
  exact ⟨m + n, by rw [walkBack_add, first, Option.bind_some, second]⟩

theorem Rooted.walkBack_height (rooted : t.Rooted) (found : t.entry p = some e) (walked : t.walkBack n p = some a) :
    ∃ ea, t.entry a = some ea ∧ ea.nHeight + n = e.nHeight := by
  induction n generalizing p e with
  | zero =>
    obtain rfl := Option.some.inj walked
    exact ⟨e, found, rfl⟩
  | succ n ih =>
    rw [walkBack, found, Option.bind_some] at walked
    obtain ⟨q, parent, rest⟩ := Option.bind_eq_some_iff.mp walked
    have up := rooted p e found
    rw [parent] at up
    obtain ⟨entry, here, height⟩ := up
    obtain ⟨ea, there, sum⟩ := ih here rest
    exact ⟨ea, there, by omega⟩

theorem Rooted.isAncestor_of_le (rooted : t.Rooted) (found : t.entry p = some e) (foundA : t.entry a = some ea)
    (foundB : t.entry b = some eb) (lower : t.IsAncestor a p) (upper : t.IsAncestor b p) (low : ea.nHeight ≤ eb.nHeight) :
    t.IsAncestor a b := by
  obtain ⟨m, first⟩ := upper
  obtain ⟨n, second⟩ := lower
  obtain ⟨eb', foundB', sumB⟩ := rooted.walkBack_height found first
  obtain ⟨ea', foundA', sumA⟩ := rooted.walkBack_height found second
  rw [foundB] at foundB'
  rw [foundA] at foundA'
  obtain rfl := Option.some.inj foundB'
  obtain rfl := Option.some.inj foundA'
  have sum : n = m + (n - m) := by omega
  rw [sum, walkBack_add, first, Option.bind_some] at second
  exact ⟨_, second⟩

structure Grown (t : BlockTree) (built : Finset IndexPtr) : Prop where
  skips : t.SkipsBuiltFor built
  all : ∀ p e, t.entry p = some e → p ∈ built
  root : ∀ p e, t.entry p = some e → e.pprev = none → p = t.genesis

variable {built : Finset IndexPtr}

theorem Grown.genesis_isAncestor (grown : t.Grown built) (found : t.entry p = some e) :
    t.walkBack e.nHeight p = some t.genesis := by
  obtain ⟨a, ea, walked, there, sum⟩ := grown.skips.rooted.walkBack_spec found (Nat.le_refl _)
  have up := grown.skips.rooted a ea there
  cases parent : ea.pprev with
  | none => rw [walked, grown.root a ea there parent]
  | some q =>
    rw [parent] at up
    obtain ⟨entry, here, height⟩ := up
    omega

end BlockTree

namespace IndexChain

open BlockTree

variable {t : BlockTree} {c : IndexChain} {vChain : List (Option IndexPtr)} {built : Finset IndexPtr}

def Below (t : BlockTree) (vChain : List (Option IndexPtr)) (h : Nat) (a : IndexPtr) : Prop :=
  ∀ k ≤ h, vChain[k]? = some (t.walkBack (h - k) a)

def Represents (t : BlockTree) (c : IndexChain) : Option IndexPtr → Prop
  | none => c.vChain = []
  | some tip => ∃ e, t.entry tip = some e ∧ c.vChain.length = e.nHeight + 1 ∧ Below t c.vChain e.nHeight tip

variable {tip : IndexPtr} {blocks : List IndexPtr} {m : BlockMap}

theorem Below.of_above (below : Below t vChain h tip) (low : k ≤ h) (here : vChain[k]? = some (some a)) : Below t vChain k a := by
  intro k' lower
  rw [below k low] at here
  have sum : h - k' = h - k + (k - k') := by omega
  rw [below k' (by omega), sum, walkBack_add, Option.some.inj here, Option.bind_some]

theorem setTipLoop_spec (rooted : t.Rooted) (found : t.entry p = some e) (enough : e.nHeight < n)
    (inside : e.nHeight < vChain.length) (right : ∀ k a, k ≤ e.nHeight → vChain[k]? = some (some a) → Below t vChain k a) :
    ∃ vChain', setTipLoop t n vChain (some p) = some vChain' ∧ vChain'.length = vChain.length ∧ Below t vChain' e.nHeight p ∧
      ∀ k, e.nHeight < k → vChain'[k]? = vChain[k]? := by
  induction n generalizing p e vChain with
  | zero => omega
  | succ n ih =>
    rw [setTipLoop, found, Option.bind_some, List.getElem?_eq_getElem inside, Option.bind_some]
    by_cases here : vChain[e.nHeight] = some p
    · rw [if_pos here]
      exact ⟨vChain, rfl, rfl, right e.nHeight p (Nat.le_refl _) (by rw [List.getElem?_eq_getElem inside, here]), fun _ _ => rfl⟩
    · rw [if_neg here]
      have written : (vChain.set e.nHeight (some p))[e.nHeight]? = some (some p) := by
        rw [List.getElem?_set_self inside]
      have other : ∀ k, k ≠ e.nHeight → (vChain.set e.nHeight (some p))[k]? = vChain[k]? := by
        intro k different
        rw [List.getElem?_set_ne (Ne.symm different)]
      have up := rooted p e found
      cases parent : e.pprev with
      | none =>
        rw [parent] at up
        dsimp only at up
        refine ⟨vChain.set e.nHeight (some p), by cases n <;> rfl, List.length_set, fun k low => ?_, fun k high => other k (by omega)⟩
        have root : k = e.nHeight := by omega
        rw [root, written, Nat.sub_self, walkBack]
      | some q =>
        rw [parent] at up
        obtain ⟨entry, foundQ, height⟩ := up
        have size : (vChain.set e.nHeight (some p)).length = vChain.length := List.length_set
        have rest : ∀ k a, k ≤ entry.nHeight → (vChain.set e.nHeight (some p))[k]? = some (some a) →
            Below t (vChain.set e.nHeight (some p)) k a := by
          intro k a low set k' lower
          rw [other k (by omega)] at set
          rw [other k' (by omega)]
          exact right k a (by omega) set k' lower
        obtain ⟨vChain', done, length, below, above⟩ := ih foundQ (by omega) (by omega) rest
        refine ⟨vChain', done, by omega, fun k low => ?_, fun k high => ?_⟩
        · by_cases top : k = e.nHeight
          · rw [top, above e.nHeight (by omega), written, Nat.sub_self, walkBack]
          · have steps : e.nHeight - k = entry.nHeight - k + 1 := by omega
            rw [below k (by omega), steps, walkBack, found, Option.bind_some, parent, Option.bind_some]
        · rw [above k (by omega), other k (by omega)]

theorem getElem?_resize (inside : k < size) (a : IndexPtr) :
    (resize vChain size)[k]? = some (some a) ↔ vChain[k]? = some (some a) := by
  unfold resize
  by_cases old : k < vChain.length
  · rw [List.getElem?_append_left (by rw [List.length_take]; omega), List.getElem?_take, if_pos inside]
  · rw [List.getElem?_append_right (by rw [List.length_take]; omega), @List.getElem?_eq_none _ vChain k (by omega)]
    constructor
    · intro here
      have padding := List.mem_of_getElem? here
      cases List.eq_of_mem_replicate padding
    · nofun

theorem length_resize (vChain : List (Option IndexPtr)) (size : Nat) : (resize vChain size).length = size := by
  rw [resize, List.length_append, List.length_take, List.length_replicate]
  omega

theorem setTip_represents (rooted : t.Rooted) {tip : Option IndexPtr} (represents : Represents t c before)
    (known : ∀ p, tip = some p → (t.entry p).isSome) : ∃ c', setTip t c tip = some c' ∧ Represents t c' tip := by
  cases tip with
  | none => exact ⟨_, rfl, rfl⟩
  | some p =>
    obtain ⟨e, found⟩ := Option.isSome_iff_exists.mp (known p rfl)
    have right : ∀ k a, k ≤ e.nHeight → (resize c.vChain (e.nHeight + 1))[k]? = some (some a) →
        Below t (resize c.vChain (e.nHeight + 1)) k a := by
      intro k a low here
      rw [getElem?_resize (by omega)] at here
      have below : Below t c.vChain k a := by
        cases before with
        | none =>
          rw [show c.vChain = [] from represents] at here
          cases here
        | some old =>
          obtain ⟨eOld, _, length, belowOld⟩ := represents
          obtain ⟨inside, _⟩ := List.getElem?_eq_some_iff.mp here
          exact belowOld.of_above (by omega) here
      intro k' lower
      obtain ⟨inside, _⟩ := List.getElem?_eq_some_iff.mp here
      rw [resize, List.getElem?_append_left (by rw [List.length_take]; omega), List.getElem?_take, if_pos (by omega)]
      exact below k' lower
    obtain ⟨vChain', done, length, below, _⟩ :=
      setTipLoop_spec rooted found (Nat.lt_succ_self _) (by rw [length_resize]; omega) right
    refine ⟨{ vChain := vChain' }, ?_, e, found, by rw [length, length_resize], below⟩
    rw [setTip, found, Option.bind_some, done, Option.map_some]

def setTips (t : BlockTree) (tips : List (Option IndexPtr)) : Option IndexChain := tips.foldlM (setTip t) {}

theorem setTips_represents (rooted : t.Rooted) (known : ∀ p, some p ∈ tips → (t.entry p).isSome) :
    ∃ c, setTips t tips = some c ∧ Represents t c tips.getLast?.join := by
  have run : ∀ (tips : List (Option IndexPtr)) (c : IndexChain) (before : Option IndexPtr), Represents t c before →
      (∀ p, some p ∈ tips → (t.entry p).isSome) → ∃ c', tips.foldlM (setTip t) c = some c' ∧ Represents t c' (tips.getLast?.getD before) := by
    intro tips
    induction tips with
    | nil => exact fun c before represents _ => ⟨c, rfl, represents⟩
    | cons tip tips ih =>
      intro c before represents known
      obtain ⟨c₁, set, represents₁⟩ := setTip_represents rooted represents fun p same => known p (same ▸ List.mem_cons_self)
      obtain ⟨c', rest, represents'⟩ := ih c₁ tip represents₁ fun p member => known p (List.mem_cons_of_mem _ member)
      refine ⟨c', ?_, ?_⟩
      · rw [List.foldlM_cons, set]
        exact rest
      · rw [List.getLast?_cons, Option.getD_some]
        exact represents'
  obtain ⟨c, done, represents⟩ := run tips {} none rfl known
  refine ⟨c, done, ?_⟩
  cases last : tips.getLast? with
  | none =>
    rw [last] at represents
    exact represents
  | some tip =>
    rw [last] at represents
    exact represents

def OnChain (t : BlockTree) (tip : Option IndexPtr) (p : IndexPtr) : Prop := ∃ a, tip = some a ∧ t.IsAncestor p a

theorem height_eq (represents : Represents t c (some tip)) (found : t.entry tip = some e) : c.height = e.nHeight := by
  obtain ⟨e', found', length, _⟩ := represents
  rw [found] at found'
  obtain rfl := Option.some.inj found'
  rw [height, length]
  omega

theorem at_eq (represents : Represents t c (some tip)) (found : t.entry tip = some e) {h : Int} (low : 0 ≤ h ∧ h ≤ e.nHeight) :
    c.at_ h = t.walkBack (e.nHeight - h).toNat tip := by
  obtain ⟨e', found', length, below⟩ := represents
  rw [found] at found'
  obtain rfl := Option.some.inj found'
  have steps : (e.nHeight - h).toNat = e.nHeight - h.toNat := by omega
  rw [at_, if_neg (by omega), below h.toNat (by omega), Option.join_some, steps]

theorem contains_spec (rooted : t.Rooted) {tip : Option IndexPtr} (represents : Represents t c tip) (found : t.entry p = some e) :
    ∃ b, contains t c p = some b ∧ (b = true ↔ OnChain t tip p) := by
  refine ⟨_, by rw [contains, found, Option.map_some], ?_⟩
  rw [decide_eq_true_iff]
  cases tip with
  | none =>
    have empty : c.vChain = [] := represents
    constructor
    · intro here
      rw [at_, if_pos (by rw [empty, List.length_nil]; omega)] at here
      cases here
    · intro onChain
      obtain ⟨a, same, _⟩ := onChain
      cases same
  | some a =>
    obtain ⟨ea, foundA, length, _⟩ := id represents
    constructor
    · intro here
      have inside : e.nHeight ≤ ea.nHeight := by
        by_contra beyond
        rw [at_, if_pos (by omega)] at here
        cases here
      rw [at_eq represents foundA (by omega)] at here
      exact ⟨a, rfl, _, here⟩
    · intro onChain
      obtain ⟨a', same, n, walked⟩ := onChain
      obtain rfl := Option.some.inj same
      obtain ⟨e', found', sum⟩ := rooted.walkBack_height foundA walked
      rw [found] at found'
      obtain rfl := Option.some.inj found'
      have steps : ((ea.nHeight : Int) - e.nHeight).toNat = n := by omega
      rw [at_eq represents foundA (by omega), steps, walked]

theorem findForkLoop_spec (grown : t.Grown built) (represents : Represents t c (some tip)) (found : t.entry p = some e)
    (enough : e.nHeight < n) : ∃ f, findForkLoop t c n (some p) = some (some f) ∧ t.LastCommon f p tip := by
  induction n generalizing p e with
  | zero => omega
  | succ n ih =>
    have rooted := grown.skips.rooted
    obtain ⟨inChain, contained, onChain⟩ := contains_spec rooted represents found
    rw [findForkLoop, found, Option.bind_some, contained, Option.bind_some]
    cases inChain with
    | true =>
      obtain ⟨a, same, ancestor⟩ := onChain.mp rfl
      obtain rfl := Option.some.inj same
      exact ⟨p, rfl, isAncestor_refl t p, ancestor, fun g left _ => left⟩
    | false =>
      have outside : ¬t.IsAncestor p tip := fun ancestor => nomatch onChain.mpr ⟨tip, rfl, ancestor⟩
      rw [if_neg nofun]
      have up := rooted p e found
      cases parent : e.pprev with
      | none =>
        -- the root is below every tip
        obtain ⟨eTip, foundTip, _⟩ := represents
        rw [grown.root p e found parent] at outside
        exact absurd ⟨_, grown.genesis_isAncestor foundTip⟩ outside
      | some q =>
        rw [parent] at up
        obtain ⟨entry, foundQ, height⟩ := up
        obtain ⟨f, done, common⟩ := ih foundQ (by omega)
        have step : t.IsAncestor q p := ⟨1, by rw [walkBack, found, Option.bind_some, parent, Option.bind_some, walkBack]⟩
        refine ⟨f, done, common.left.trans step, common.right, fun g left right => common.last g ?_ right⟩
        obtain ⟨k, walked⟩ := left
        cases k with
        | zero =>
          obtain rfl := Option.some.inj walked
          exact absurd right outside
        | succ k =>
          rw [walkBack, found, Option.bind_some, parent, Option.bind_some] at walked
          exact ⟨k, walked⟩

theorem findFork_spec (grown : t.Grown built) (represents : Represents t c (some tip)) (found : t.entry p = some e) :
    ∃ f, findFork t c (some p) = some (some f) ∧ t.LastCommon f p tip := by
  have rooted := grown.skips.rooted
  obtain ⟨eTip, foundTip, _⟩ := id represents
  have height := height_eq represents foundTip
  rw [findFork, found, Option.bind_some]
  by_cases higher : (e.nHeight : Int) > c.height
  · obtain ⟨q, walked, looked⟩ := grown.skips.getAncestorAt_eq (grown.all p e found) found (show 0 ≤ c.height ∧ c.height ≤ e.nHeight by omega)
    obtain ⟨eq, foundQ, sum⟩ := rooted.walkBack_height found walked
    obtain ⟨f, done, common⟩ := findForkLoop_spec grown represents foundQ (n := e.nHeight + 1) (by omega)
    rw [if_pos higher, looked, Option.bind_some, done]
    refine ⟨f, rfl, common.left.trans ⟨_, walked⟩, common.right, fun g left right => common.last g ?_ right⟩
    -- a common ancestor is no higher than the tip
    obtain ⟨n, walkedG⟩ := id right
    obtain ⟨eg, foundG, sumG⟩ := rooted.walkBack_height foundTip walkedG
    exact rooted.isAncestor_of_le found foundG foundQ left ⟨_, walked⟩ (by omega)
  · rw [if_neg higher, Option.bind_some]
    exact findForkLoop_spec grown represents found (Nat.lt_succ_self _)

theorem findFork_empty (represents : Represents t c none) (found : t.entry p = some e) : findFork t c (some p) = some none := by
  have empty : c.vChain = [] := represents
  have height : c.height = -1 := by rw [height, empty]; rfl
  rw [findFork, found, Option.bind_some, height, if_pos (by omega), getAncestorAt_outside found (by omega), Option.bind_some]
  rfl

theorem stepBack_eq (grown : t.Grown built) {tip : Option IndexPtr} (represents : Represents t c tip)
    (found : t.entry p = some e) {h : Int} (low : 0 ≤ h ∧ h ≤ e.nHeight) :
    ∃ a, stepBack t c p h = some (some a) ∧ t.walkBack (e.nHeight - h).toNat p = some a := by
  obtain ⟨a, walked, looked⟩ := grown.skips.getAncestorAt_eq (grown.all p e found) found low
  refine ⟨a, ?_, walked⟩
  obtain ⟨inChain, contained, onChain⟩ := contains_spec grown.skips.rooted represents found
  rw [stepBack, contained, Option.bind_some]
  cases inChain with
  | false => exact looked
  | true =>
    obtain ⟨top, rfl, n, walkedP⟩ := onChain.mp rfl
    obtain ⟨eTip, foundTip, _⟩ := id represents
    obtain ⟨e', found', sum⟩ := grown.skips.rooted.walkBack_height foundTip walkedP
    rw [found] at found'
    obtain rfl := Option.some.inj found'
    have steps : ((eTip.nHeight : Int) - h).toNat = n + (e.nHeight - h).toNat := by omega
    rw [if_pos rfl, at_eq represents foundTip (by omega), steps, walkBack_add, walkedP, Option.bind_some, walked]

structure Descends (t : BlockTree) (p : IndexPtr) (blocks : List IndexPtr) : Prop where
  first : blocks.head? = some p
  ancestors : ∀ b ∈ blocks, t.IsAncestor b p
  heights : blocks.Pairwise fun a b => ∃ ea eb, t.entry a = some ea ∧ t.entry b = some eb ∧ eb.nHeight < ea.nHeight
  last : blocks.getLast? = some t.genesis

theorem descends_cons (rooted : t.Rooted) (found : t.entry p = some e) (foundQ : t.entry q = some eq)
    (ancestor : t.IsAncestor q p) (lower : eq.nHeight < e.nHeight) (descends : Descends t q blocks) : Descends t p (p :: blocks) := by
  refine ⟨rfl, ?_, ?_, ?_⟩
  · intro b member
    rcases List.mem_cons.mp member with rfl | later
    · exact isAncestor_refl t b
    · exact (descends.ancestors b later).trans ancestor
  · refine List.pairwise_cons.mpr ⟨fun b member => ?_, descends.heights⟩
    obtain ⟨n, walked⟩ := descends.ancestors b member
    obtain ⟨eb, foundB, sum⟩ := rooted.walkBack_height foundQ walked
    exact ⟨e, eb, found, foundB, by omega⟩
  · rw [List.getLast?_cons, descends.last]
    rfl

theorem locatorLoop_spec (grown : m.tree.Grown built) {tip : Option IndexPtr}
    (represents : Represents m.tree c tip) {n nStep : Nat} {vHave : List uint256} {p : IndexPtr}
    {e : TreeEntry} (found : m.tree.entry p = some e) (enough : e.nHeight < n) (positive : 0 < nStep) :
    ∃ blocks, locatorLoop m c n vHave nStep (some p) = some (vHave ++ blocks.map m.phashBlock) ∧
      Descends m.tree p blocks := by
  induction n generalizing p e vHave nStep with
  | zero => omega
  | succ n ih =>
    rw [locatorLoop, found, Option.bind_some]
    dsimp only
    by_cases root : e.nHeight = 0
    · have genesis := grown.genesis_isAncestor found
      rw [root, walkBack] at genesis
      rw [if_pos root]
      refine ⟨[p], rfl, rfl, ?_, List.pairwise_singleton _ _, genesis⟩
      intro b member
      obtain rfl := List.mem_singleton.mp member
      exact isAncestor_refl _ b
    · obtain ⟨q, stepped, walked⟩ := stepBack_eq grown represents found (show 0 ≤ max ((e.nHeight : Int) - nStep) 0 ∧ _ by omega)
      obtain ⟨eq, foundQ, sum⟩ := grown.skips.rooted.walkBack_height found walked
      have doubled : 0 < if (vHave ++ [m.phashBlock p]).length > 10 then nStep * 2 else nStep := by
        split
        · omega
        · exact positive
      obtain ⟨blocks, located, descends⟩ := @ih _ (vHave ++ [m.phashBlock p]) q eq foundQ (by omega) doubled
      rw [if_neg root, stepped, Option.bind_some, located]
      refine ⟨p :: blocks, ?_, descends_cons grown.skips.rooted found foundQ ⟨_, walked⟩ (by omega) descends⟩
      rw [List.append_assoc, List.map_cons, List.singleton_append]

theorem getLocator_spec (grown : m.tree.Grown built) {tip : Option IndexPtr}
    (represents : Represents m.tree c tip) {start : Option IndexPtr} {p : IndexPtr} {e : TreeEntry}
    (begins : start.or c.tip = some p) (found : m.tree.entry p = some e) :
    ∃ blocks, getLocator m c start = some (blocks.map m.phashBlock) ∧ Descends m.tree p blocks := by
  unfold getLocator
  dsimp only
  rw [begins, Option.bind_some, found, Option.map_some, Option.getD_some]
  exact @locatorLoop_spec c built m grown tip represents (e.nHeight + 1) 1 [] p e found (Nat.lt_succ_self _) (by omega)

theorem findForkInGlobalIndex_spec (grown : m.tree.Grown built) {tip : Option IndexPtr}
    (represents : Represents m.tree c tip) (known : ∀ b ∈ blocks, (m.tree.entry b).isSome)
    (hit : ∃ b ∈ blocks, OnChain m.tree tip b) :
    ∃ f ∈ blocks, findForkInGlobalIndex m c (blocks.map m.phashBlock) = some (some f) ∧ OnChain m.tree tip f := by
  induction blocks with
  | nil =>
    obtain ⟨b, member, _⟩ := hit
    nomatch member
  | cons b blocks ih =>
    have knownB := known b List.mem_cons_self
    obtain ⟨e, found⟩ := Option.isSome_iff_exists.mp knownB
    obtain ⟨inChain, contained, onChain⟩ := contains_spec grown.skips.rooted represents found
    rw [List.map_cons, findForkInGlobalIndex, (m.keyed _ b).mpr ⟨knownB, rfl⟩]
    dsimp only
    rw [contained, Option.bind_some]
    cases inChain with
    | true => exact ⟨b, List.mem_cons_self, rfl, onChain.mp rfl⟩
    | false =>
      rw [if_neg nofun]
      have later : ∃ b ∈ blocks, OnChain m.tree tip b := by
        obtain ⟨b', member, on⟩ := hit
        rcases List.mem_cons.mp member with rfl | later
        · exact nomatch onChain.mpr on
        · exact ⟨b', later, on⟩
      obtain ⟨f, member, done, on⟩ := ih (fun b' member => known b' (List.mem_cons_of_mem _ member)) later
      exact ⟨f, List.mem_cons_of_mem _ member, done, on⟩

theorem located_fork (grown : m.tree.Grown built) (represents : Represents m.tree c (some tip))
    (found : m.tree.entry p = some e) (descends : Descends m.tree p blocks) :
    ∃ f g, findForkInGlobalIndex m c (blocks.map m.phashBlock) = some (some f) ∧ m.tree.LastCommon g p tip ∧ m.tree.IsAncestor f g := by
  have known : ∀ b ∈ blocks, (m.tree.entry b).isSome := by
    intro b member
    obtain ⟨n, walked⟩ := descends.ancestors b member
    obtain ⟨eb, foundB, _⟩ := grown.skips.rooted.walkBack_height found walked
    rw [foundB]
    rfl
  have hit : ∃ b ∈ blocks, OnChain m.tree (some tip) b := by
    obtain ⟨eTip, foundTip, _⟩ := id represents
    exact ⟨m.tree.genesis, List.mem_of_getLast? descends.last, tip, rfl, _, grown.genesis_isAncestor foundTip⟩
  obtain ⟨f, member, done, top, same, ancestor⟩ := findForkInGlobalIndex_spec grown represents known hit
  obtain rfl := Option.some.inj same
  obtain ⟨g, _, common⟩ := findFork_spec grown represents found
  exact ⟨f, g, done, common, common.last f (descends.ancestors f member) ancestor⟩

/-- After any tips a chain holds the ancestors of the last one; forks with it are found, and the locators of all blocks lead other chains to
forks with them. -/
theorem chain_of_tips {m : BlockMap} {built : Finset IndexPtr} (linking : Linking m.tree built)
    (all : ∀ p e, m.tree.entry p = some e → p ∈ built) (root : ∀ p e, m.tree.entry p = some e → e.pprev = none → p = m.tree.genesis)
    {tips : List (Option IndexPtr)} (known : ∀ p, some p ∈ tips → (m.tree.entry p).isSome) :
    ∃ c, setTips m.tree tips = some c ∧
      (∀ tip e, tips.getLast?.join = some tip → m.tree.entry tip = some e → c.height = e.nHeight ∧
        ∀ h, 0 ≤ h ∧ h ≤ c.height → ∃ a, m.tree.walkBack (e.nHeight - h).toNat tip = some a ∧ c.at_ h = some a) ∧
      ∀ p, (m.tree.entry p).isSome →
        (∃ b, contains m.tree c p = some b ∧ (b = true ↔ OnChain m.tree tips.getLast?.join p)) ∧
        (∀ tip, tips.getLast?.join = some tip → ∃ f, findFork m.tree c (some p) = some (some f) ∧ m.tree.LastCommon f p tip) ∧
        (tips.getLast?.join = none → findFork m.tree c (some p) = some none) ∧
        ∀ start, start.or c.tip = some p → ∃ blocks, getLocator m c start = some (blocks.map m.phashBlock) ∧ Descends m.tree p blocks ∧
          ∀ others : List (Option IndexPtr), (∀ q, some q ∈ others → (m.tree.entry q).isSome) → ∀ tip, others.getLast?.join = some tip →
            ∃ other f g, setTips m.tree others = some other ∧
              findForkInGlobalIndex m other (blocks.map m.phashBlock) = some (some f) ∧ m.tree.LastCommon g p tip ∧
              m.tree.IsAncestor f g := by
  have grown : m.tree.Grown built := ⟨linking.skipsBuiltFor, all, root⟩
  have rooted := grown.skips.rooted
  obtain ⟨c, set, represents⟩ := setTips_represents rooted known
  refine ⟨c, set, fun tip e last foundTip => ?_, fun p knownP => ?_⟩
  · rw [last] at represents
    have height := height_eq represents foundTip
    refine ⟨height, fun h low => ?_⟩
    obtain ⟨a, ea, walked, _⟩ := rooted.walkBack_spec foundTip (show ((e.nHeight : Int) - h).toNat ≤ e.nHeight by omega)
    exact ⟨a, walked, by rw [at_eq represents foundTip (by omega), walked]⟩
  · obtain ⟨e, found⟩ := Option.isSome_iff_exists.mp knownP
    refine ⟨contains_spec rooted represents found, fun tip last => ?_, fun last => ?_, fun start begins => ?_⟩
    · rw [last] at represents
      exact findFork_spec grown represents found
    · rw [last] at represents
      exact findFork_empty represents found
    · obtain ⟨blocks, located, descends⟩ := getLocator_spec grown represents begins found
      refine ⟨blocks, located, descends, fun others knownOthers tip last => ?_⟩
      obtain ⟨other, setOther, representsOther⟩ := setTips_represents rooted knownOthers
      rw [last] at representsOther
      obtain ⟨f, g, done, common, ancestor⟩ := located_fork grown representsOther found descends
      exact ⟨other, f, g, setOther, done, common, ancestor⟩

variable (n : Nat)

theorem line_genesis : (line n).genesis = 0 := by
  have linked : ∀ {t t' : BlockTree} {p : IndexPtr} {pprev : Option IndexPtr} {e : TreeEntry}, t.linkBlock p pprev e = some t' →
      t'.genesis = t.genesis := by
    intro t t' p pprev e done
    obtain ⟨_, rfl, _⟩ := linkBlock_some done
    rfl
  have skipped : ∀ {t t' : BlockTree} {p : IndexPtr}, t.buildSkip p = some t' → t'.genesis = t.genesis := by
    intro t t' p done
    obtain ⟨e, _, done⟩ := Option.bind_eq_some_iff.mp done
    split at done
    · obtain rfl := Option.some.inj done
      rfl
    · obtain ⟨pskip, _, rfl⟩ := Option.map_eq_some_iff.mp done
      rfl
  induction n with
  | zero => rfl
  | succ n ih =>
    unfold line
    dsimp only
    generalize result : Option.bind _ _ = after
    cases after with
    | none => exact ih
    | some t' =>
      obtain ⟨t, done, done'⟩ := Option.bind_eq_some_iff.mp result
      rw [Option.getD_some, skipped done', linked done, ih]

theorem line_root (p : IndexPtr) (e : TreeEntry) (found : (line n).entry p = some e) (root : e.pprev = none) :
    p = (line n).genesis := by
  obtain ⟨linking, heights⟩ := line_linking n
  have level := linking.skipsBuiltFor.rooted p e found
  have height := heights p
  rw [root] at level
  rw [found, Option.map_some] at height
  split at height
  · rw [line_genesis, ← Option.some.inj height]
    exact level
  · cases height

theorem line_known (p : Nat) : ((line n).entry p).isSome ↔ p < n := by
  have height := (line_linking n).2 p
  cases found : (line n).entry p with
  | none =>
    rw [found] at height
    split at height
    · cases height
    · next outside => exact ⟨nofun, fun inside => absurd inside outside⟩
  | some e =>
    rw [found] at height
    split at height
    · next inside => exact ⟨fun _ => inside, fun _ => rfl⟩
    · cases height

def lineMap : BlockMap where
  tree := line 3
  phashBlock := fun p => BitVec.ofNat 256 p
  mapBlockIndex := (((∅ : StdMap uint256 IndexPtr).insert 0 0).insert 1 1).insert 2 2
  keyed := by
    intro hash p
    simp only [StdMap.lookup_insert_ite, AList.lookup_empty]
    rw [line_known]
    constructor
    · intro held
      split_ifs at held with two one zero
      all_goals obtain rfl := Option.some.inj held
      · exact ⟨by omega, two.symm⟩
      · exact ⟨by omega, one.symm⟩
      · exact ⟨by omega, zero.symm⟩
    · intro held
      obtain ⟨inside, rfl⟩ := held
      match p, inside with
      | 0, _ | 1, _ | 2, _ => rfl

theorem lineMap_chain : ∃ c, setTips lineMap.tree [some 2, some 0, none, some 1] = some c ∧ c.height = 1 ∧
    ∃ blocks, getLocator lineMap c (some 2) = some (blocks.map lineMap.phashBlock) ∧ Descends lineMap.tree 2 blocks := by
  have known : ∀ p : Nat, (lineMap.tree.entry p).isSome ↔ p < 3 := line_known 3
  have tipsKnown : ∀ p : Nat, some p ∈ [some 2, some 0, none, some 1] → (lineMap.tree.entry p).isSome := by
    intro p member
    rw [known]
    simp only [List.mem_cons, Option.some.injEq, reduceCtorEq, List.not_mem_nil, or_false, false_or] at member
    omega
  obtain ⟨c, set, top, lookups⟩ := @chain_of_tips lineMap _ (line_linking 3).1
    (fun p e found => Finset.mem_range.mpr ((known p).mp (by rw [found]; rfl))) (line_root 3) _ tipsKnown
  obtain ⟨_, _, _, locators⟩ := lookups 2 ((known 2).mpr (by decide))
  obtain ⟨blocks, located, descends, _⟩ := locators (some 2) rfl
  refine ⟨c, set, ?_, blocks, located, descends⟩
  obtain ⟨e, found⟩ := Option.isSome_iff_exists.mp ((known 1).mpr (by decide))
  have height := (line_linking 3).2 1
  rw [show (line 3).entry 1 = some e from found] at height
  have one : e.nHeight = 1 := Option.some.inj height
  rw [(top 1 e rfl found).1, one]
  rfl

end IndexChain

end SchillingCoin
