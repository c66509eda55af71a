import Mathlib.Data.Prod.Lex
import SchillingCoin.Lib.Components
import SchillingCoin.Lib.StdSet
import SchillingCoin.Wallet.Amounts

/-!
`GetAddressGroupings` of `wallet.cpp`: the addresses that are known to belong together, since a transaction of the wallet spends from
them or sends its change to them. Groups are objects on the heap, found through a set of pointers and through a map from addresses.
-/

namespace SchillingCoin

open Components

namespace CTxDestination

def which : CTxDestination → Nat
  | .noDestination => 0
  | .keyID _ => 1
  | .scriptID _ => 2

def number : CTxDestination → Nat
  | .noDestination => 0
  | .keyID id => Codec.leValue id.bytes
  | .scriptID id => Codec.leValue id.bytes

def rank (dest : CTxDestination) : ℕ ×ₗ ℕ := toLex (dest.which, dest.number)

theorem keyID_eq {id : CKeyID} (same : Codec.leValue id.bytes = Codec.leValue id'.bytes) : id = id' := by
  have bytes : id.bytes = id'.bytes := by
    rw [← Codec.leBytes_leValue id.bytes, ← Codec.leBytes_leValue id'.bytes, same, id.size, id'.size]
  cases id
  cases id'
  obtain rfl := bytes
  rfl

theorem rank_injective : Function.Injective rank := by
  intro dest dest' same
  obtain ⟨sameWhich, sameNumber⟩ := Prod.mk.inj (toLex.injective same)
  cases dest <;> cases dest'
  case noDestination.noDestination => rfl
  case keyID.keyID => exact congrArg keyID (keyID_eq sameNumber)
  case scriptID.scriptID => exact congrArg scriptID (keyID_eq sameNumber)
  all_goals simp [which] at sameWhich

instance : LinearOrder CTxDestination := LinearOrder.lift' rank rank_injective

end CTxDestination

abbrev Grouping := StdSet CTxDestination

structure AddressContext where
  keystore : OwnedScripts
  /-- The rounds of `IsMine`. -/
  rounds : Nat
  inAddressBook : CTxDestination → Bool

namespace AddressContext

variable (ctx : AddressContext)

def isMineScript (scriptPubKey : CScript) : isminetype := ctx.keystore.isMine ctx.rounds scriptPubKey

def addressOf (scriptPubKey : CScript) : Option CTxDestination := extractDestination ctx.keystore.getID scriptPubKey false

def isChange (txout : CTxOut) : Bool :=
  if ctx.isMineScript txout.scriptPubKey ≠ ISMINE_NO then
    match ctx.addressOf txout.scriptPubKey with
    | none => true
    | some address => !ctx.inAddressBook address
  else false

end AddressContext

namespace CWallet

variable (ctx : AddressContext) (w : CWallet)

def isMineTxIn (txin : CTxIn) : isminetype :=
  match w.prevOutOf txin with
  | none => ISMINE_NO
  | some out => ctx.isMineScript out.scriptPubKey

def inputAddress (txin : CTxIn) : Option CTxDestination :=
  if w.isMineTxIn ctx txin = ISMINE_NO then none else (w.prevOutOf txin).bind fun out => ctx.addressOf out.scriptPubKey

def changeAddress (txout : CTxOut) : Option CTxDestination := if ctx.isChange txout then ctx.addressOf txout.scriptPubKey else none

def outputAddress (txout : CTxOut) : Option CTxDestination :=
  if ctx.isMineScript txout.scriptPubKey ≠ ISMINE_NO then ctx.addressOf txout.scriptPubKey else none

def txGrouping (pcoin : CTransaction) : Grouping :=
  let inputs := pcoin.vin.filterMap (w.inputAddress ctx)
  let any_mine := !inputs.isEmpty
  let grouping := StdSet.insertAll ∅ inputs
  if any_mine then grouping.insertAll (pcoin.vout.filterMap (changeAddress ctx)) else grouping

def addTxGroupings (groupings : StdSet Grouping) (pcoin : CTransaction) : StdSet Grouping :=
  let grouping := w.txGrouping ctx pcoin
  let groupings := if pcoin.vin.length > 0 ∧ grouping.toList.length > 0 then groupings.insert grouping else groupings
  groupings.insertAll ((pcoin.vout.filterMap (outputAddress ctx)).map fun address => StdSet.insert ∅ address)

def transactions : List CTransaction := w.mapWallet.entries.map fun e => e.2.tx

def collectGroupings : StdSet Grouping := w.transactions.foldl (w.addTxGroupings ctx) ∅

end CWallet

/-- `operator new`: what it returns is no object that is alive, and may be the address of a deleted one. -/
structure Allocator where
  new : List Nat → Nat
  fresh : ∀ live, new live ∉ live

structure GroupHeap where
  groups : StdMap Nat Grouping := ∅
  uniqueGroupings : StdSet Nat := ∅
  setmap : StdMap CTxDestination Nat := ∅

namespace GroupHeap

/-! `none` is the use of a deleted group. -/

def hits (heap : GroupHeap) (grouping : Grouping) : StdSet Nat := StdSet.insertAll ∅ (grouping.toList.filterMap heap.setmap.lookup)

def absorb (merged : Nat) (heap : GroupHeap) (hit : Nat) : Option GroupHeap := do
  let into ← heap.groups.lookup merged
  let group ← heap.groups.lookup hit
  return { heap with
    groups := (heap.groups.insert merged (into.insertAll group.toList)).erase hit
    uniqueGroupings := heap.uniqueGroupings.erase hit }

def absorbAll (merged : Nat) : List Nat → GroupHeap → Option GroupHeap
  | [], heap => some heap
  | hit :: hits, heap => (absorb merged heap hit).bind (absorbAll merged hits)

def updateSetmap (setmap : StdMap CTxDestination Nat) (merged : Nat) (elements : List CTxDestination) : StdMap CTxDestination Nat :=
  elements.foldl (fun setmap element => setmap.insert element merged) setmap

def addGrouping (alloc : Allocator) (heap : GroupHeap) (grouping : Grouping) : Option GroupHeap := do
  let merged := alloc.new heap.groups.keys
  let heap' ← absorbAll merged (heap.hits grouping).toList { heap with groups := heap.groups.insert merged grouping }
  let group ← heap'.groups.lookup merged
  return { heap' with
    uniqueGroupings := heap'.uniqueGroupings.insert merged
    setmap := updateSetmap heap'.setmap merged group.toList }

def addGroupings (alloc : Allocator) : List Grouping → GroupHeap → Option GroupHeap
  | [], heap => some heap
  | grouping :: groupings, heap => (addGrouping alloc heap grouping).bind (addGroupings alloc groupings)

def copyGroups (groups : StdMap Nat Grouping) : List Nat → StdSet Grouping → Option (StdSet Grouping)
  | [], ret => some ret
  | uniqueGrouping :: rest, ret => (groups.lookup uniqueGrouping).bind fun group => copyGroups groups rest (ret.insert group)

end GroupHeap

def CWallet.getAddressGroupings (ctx : AddressContext) (w : CWallet) (alloc : Allocator) : Option (StdSet Grouping) := do
  let heap ← GroupHeap.addGroupings alloc (w.collectGroupings ctx).toList {}
  GroupHeap.copyGroups heap.groups heap.uniqueGroupings.toList ∅

def Grouping.members (g : Grouping) : Set CTxDestination := { a | a ∈ g }

namespace GroupHeap

def parts (heap : GroupHeap) : Set (Set CTxDestination) := { part | ∃ p group, heap.groups.lookup p = some group ∧ part = Grouping.members group }

/-- The set and the map point to the live groups, which are the components of the groupings so far. -/
structure Agrees (heap : GroupHeap) (family : Set (Set CTxDestination)) : Prop where
  live : ∀ p, p ∈ heap.uniqueGroupings ↔ (heap.groups.lookup p).isSome = true
  map : ∀ a p, heap.setmap.lookup a = some p ↔ ∃ group, heap.groups.lookup p = some group ∧ a ∈ group
  components : AreComponents family heap.parts

theorem agrees_empty : Agrees {} ∅ where
  live p := by simp [StdSet.notMem_empty]
  map a p := by simp
  components := by
    have nothing : parts {} = ∅ := by
      apply Set.eq_empty_iff_forall_notMem.mpr
      intro part ⟨p, group, found, _⟩
      cases found
    rw [nothing]
    exact areComponents_empty

theorem mem_hits {heap : GroupHeap} {p : Nat} : p ∈ heap.hits grouping ↔ ∃ a ∈ grouping, heap.setmap.lookup a = some p := by
  rw [hits, StdSet.mem_insertAll, List.mem_filterMap]
  exact or_iff_left (StdSet.notMem_empty p)

theorem lookup_updateSetmap (setmap : StdMap CTxDestination Nat) (merged : Nat) (elements : List CTxDestination) (a : CTxDestination) :
    (updateSetmap setmap merged elements).lookup a = if a ∈ elements then some merged else setmap.lookup a := by
  induction elements generalizing setmap with
  | nil => rfl
  | cons element elements ih =>
    have step : updateSetmap setmap merged (element :: elements) = updateSetmap (setmap.insert element merged) merged elements := rfl
    rw [step, ih, StdMap.lookup_insert_ite]
    by_cases later : a ∈ elements
    · rw [if_pos later, if_pos (List.mem_cons_of_mem _ later)]
    · rw [if_neg later]
      by_cases here : a = element
      · rw [if_pos here, if_pos (List.mem_cons.mpr (.inl here))]
      · rw [if_neg here, if_neg (by simp [here, later])]

structure Absorbed (merged : Nat) (hits : List Nat) (before after : GroupHeap) : Prop where
  group : ∀ into, before.groups.lookup merged = some into → ∃ group, after.groups.lookup merged = some group ∧
    ∀ a, a ∈ group ↔ a ∈ into ∨ ∃ hit ∈ hits, ∃ other, before.groups.lookup hit = some other ∧ a ∈ other
  others : ∀ p ≠ merged, after.groups.lookup p = if p ∈ hits then none else before.groups.lookup p
  live : ∀ p, p ∈ after.uniqueGroupings ↔ p ∉ hits ∧ p ∈ before.uniqueGroupings
  setmap : after.setmap = before.setmap

theorem absorb_ok (different : hit ≠ merged) (isNew : heap.groups.lookup merged = some into)
    (isHit : heap.groups.lookup hit = some group) :
    ∃ heap', absorb merged heap hit = some heap' ∧ heap'.groups.lookup merged = some (into.insertAll group.toList) ∧
      (∀ p ≠ merged, heap'.groups.lookup p = if p = hit then none else heap.groups.lookup p) ∧
      heap'.uniqueGroupings = heap.uniqueGroupings.erase hit ∧ heap'.setmap = heap.setmap := by
  refine ⟨{ heap with
    groups := (heap.groups.insert merged (into.insertAll group.toList)).erase hit
    uniqueGroupings := heap.uniqueGroupings.erase hit }, by rw [absorb, isNew, isHit]; rfl, ?_, ?_, rfl, rfl⟩
  · rw [StdMap.lookup_erase_ite, if_neg (Ne.symm different), StdMap.lookup_insert_ite, if_pos rfl]
  · intro p other
    rw [StdMap.lookup_erase_ite, StdMap.lookup_insert_ite, if_neg other]

theorem absorbAll_ok (hits : List Nat) {heap : GroupHeap} (nodup : hits.Nodup) (fresh : merged ∉ hits)
    (isNew : ∃ into, heap.groups.lookup merged = some into) (isHit : ∀ hit ∈ hits, ∃ group, heap.groups.lookup hit = some group) :
    ∃ heap', absorbAll merged hits heap = some heap' ∧ Absorbed merged hits heap heap' := by
  induction hits generalizing heap with
  | nil => exact ⟨heap, rfl, ⟨fun into found => ⟨into, found, by simp⟩, by simp, by simp, rfl⟩⟩
  | cons hit hits ih =>
    obtain ⟨notLater, nodup⟩ := List.nodup_cons.mp nodup
    obtain ⟨into, isNew⟩ := isNew
    obtain ⟨group, here⟩ := isHit hit List.mem_cons_self
    have different : hit ≠ merged := fun same => fresh (same ▸ List.mem_cons_self)
    obtain ⟨heap₁, first, new₁, others₁, live₁, setmap₁⟩ := absorb_ok different isNew here
    have later : ∀ other ∈ hits, other ≠ merged ∧ other ≠ hit := by
      intro other member
      refine ⟨fun same => fresh (same ▸ List.mem_cons_of_mem _ member), fun same => notLater (same ▸ member)⟩
    have kept : ∀ other ∈ hits, heap₁.groups.lookup other = heap.groups.lookup other := by
      intro other member
      obtain ⟨notNew, notHit⟩ := later other member
      rw [others₁ other notNew, if_neg notHit]
    obtain ⟨heap', rest, absorbed⟩ := ih nodup (fun member => fresh (List.mem_cons_of_mem _ member)) ⟨_, new₁⟩ fun other member => by
      rw [kept other member]
      exact isHit other (List.mem_cons_of_mem _ member)
    refine ⟨heap', by rw [absorbAll, first]; exact rest, ?_, ?_, ?_, absorbed.setmap.trans setmap₁⟩
    · intro into' found
      obtain rfl := Option.some.inj (isNew.symm.trans found)
      obtain ⟨final, isFinal, mem⟩ := absorbed.group _ new₁
      refine ⟨final, isFinal, ?_⟩
      intro a
      rw [mem, StdSet.mem_insertAll]
      constructor
      · rintro ((inGroup | inInto) | ⟨other, member, found, isOther, inOther⟩)
        · exact .inr ⟨hit, List.mem_cons_self, group, here, inGroup⟩
        · exact .inl inInto
        · exact .inr ⟨other, List.mem_cons_of_mem _ member, found, kept other member ▸ isOther, inOther⟩
      · rintro (inInto | ⟨other, member, found, isOther, inOther⟩)
        · exact .inl (.inr inInto)
        · rcases List.mem_cons.mp member with rfl | member
          · obtain rfl := Option.some.inj (here.symm.trans isOther)
            exact .inl (.inl inOther)
          · exact .inr ⟨other, member, found, (kept other member).trans isOther, inOther⟩
    · intro p notNew
      rw [absorbed.others p notNew, others₁ p notNew]
      by_cases later : p ∈ hits
      · rw [if_pos later, if_pos (List.mem_cons_of_mem _ later)]
      · rw [if_neg later]
        by_cases same : p = hit
        · rw [if_pos same, if_pos (List.mem_cons.mpr (.inl same))]
        · rw [if_neg same, if_neg (by simp [same, later])]
    · intro p
      rw [absorbed.live, live₁, StdSet.mem_erase, List.mem_cons, not_or]
      exact and_left_comm.trans and_assoc.symm

theorem addGrouping_agrees (alloc : Allocator) {heap : GroupHeap} (agrees : heap.Agrees family) {grouping : Grouping}
    (some_ : ∃ a, a ∈ grouping) :
    ∃ heap', addGrouping alloc heap grouping = some heap' ∧ heap'.Agrees (insert (Grouping.members grouping) family) := by
  generalize isMerged : alloc.new heap.groups.keys = merged
  have unused : heap.groups.lookup merged = none := by
    apply AList.lookup_eq_none.mpr
    rw [← isMerged]
    exact alloc.fresh heap.groups.keys
  have isHit : ∀ p, p ∈ heap.hits grouping ↔ ∃ group, heap.groups.lookup p = some group ∧ ∃ a ∈ grouping, a ∈ group := by
    intro p
    rw [mem_hits]
    constructor
    · rintro ⟨a, member, found⟩
      obtain ⟨group, isGroup, inGroup⟩ := (agrees.map a p).mp found
      exact ⟨group, isGroup, a, member, inGroup⟩
    · rintro ⟨group, isGroup, a, member, inGroup⟩
      exact ⟨a, member, (agrees.map a p).mpr ⟨group, isGroup, inGroup⟩⟩
  have notHit : merged ∉ heap.hits grouping := by
    intro hit
    obtain ⟨group, found, _⟩ := (isHit merged).mp hit
    rw [unused] at found
    cases found
  have elsewhere : ∀ p ≠ merged, (heap.groups.insert merged grouping).lookup p = heap.groups.lookup p := by
    intro p other
    rw [StdMap.lookup_insert_ite, if_neg other]
  have here : (heap.groups.insert merged grouping).lookup merged = some grouping := by rw [StdMap.lookup_insert_ite, if_pos rfl]
  have hitOther : ∀ hit ∈ heap.hits grouping, hit ≠ merged := fun hit member same => notHit (same ▸ member)
  obtain ⟨heap₁, absorbs, absorbed⟩ := @absorbAll_ok merged (heap.hits grouping).toList { heap with groups := heap.groups.insert merged grouping }
    (heap.hits grouping).nodup notHit ⟨grouping, here⟩ (by
      intro hit member
      obtain ⟨group, found, _⟩ := (isHit hit).mp member
      exact ⟨group, (elsewhere hit (hitOther hit member)).trans found⟩)
  obtain ⟨final, isFinal, mem⟩ := absorbed.group grouping here
  have mem' : ∀ a, a ∈ final ↔ a ∈ grouping ∨ ∃ hit ∈ heap.hits grouping, ∃ group, heap.groups.lookup hit = some group ∧ a ∈ group := by
    intro a
    rw [mem]
    apply or_congr_right
    apply exists_congr
    intro hit
    apply and_congr_right
    intro member
    rw [elsewhere hit (hitOther hit member)]
  have others : ∀ p ≠ merged, heap₁.groups.lookup p = if p ∈ heap.hits grouping then none else heap.groups.lookup p := by
    intro p notNew
    rw [absorbed.others p notNew, elsewhere p notNew]
    rfl
  refine ⟨{ heap₁ with
    uniqueGroupings := heap₁.uniqueGroupings.insert merged
    setmap := updateSetmap heap₁.setmap merged final.toList }, ?_, ?_, ?_, ?_⟩
  · rw [addGrouping, isMerged, absorbs]
    show (heap₁.groups.lookup merged).bind _ = _
    rw [isFinal]
    rfl
  · intro p
    rw [StdSet.mem_insert]
    by_cases new : p = merged
    · rw [new, isFinal]
      simp
    · rw [others p new, absorbed.live]
      by_cases hit : p ∈ heap.hits grouping
      · simp [new, hit, StdSet.mem_toList]
      · rw [if_neg hit, ← agrees.live]
        simp [new, hit, StdSet.mem_toList]
  · intro a p
    rw [lookup_updateSetmap, absorbed.setmap]
    by_cases inFinal : a ∈ final.toList
    · rw [if_pos inFinal]
      constructor
      · intro same
        obtain rfl := Option.some.inj same
        exact ⟨final, isFinal, inFinal⟩
      · rintro ⟨group, found, inGroup⟩
        by_contra different
        have notNew : p ≠ merged := fun same => different (congrArg some same.symm)
        rw [others p notNew] at found
        split at found
        · cases found
        · next notHit =>
          -- A group that is left alone shares no address with the merged one.
          have pointed := (agrees.map a p).mpr ⟨group, found, inGroup⟩
          rcases (mem' a).mp inFinal with inGrouping | ⟨hit, member, other, isOther, inOther⟩
          · exact notHit ((isHit p).mpr ⟨group, found, a, inGrouping, inGroup⟩)
          · have pointed' := (agrees.map a hit).mpr ⟨other, isOther, inOther⟩
            obtain rfl := Option.some.inj (pointed.symm.trans pointed')
            exact notHit member
    · rw [if_neg inFinal, agrees.map]
      constructor
      · rintro ⟨group, found, inGroup⟩
        have notHit : p ∉ heap.hits grouping := fun hit => inFinal ((mem' a).mpr (.inr ⟨p, hit, group, found, inGroup⟩))
        have notNew : p ≠ merged := by
          rintro rfl
          rw [unused] at found
          cases found
        exact ⟨group, by rw [others p notNew, if_neg notHit, found], inGroup⟩
      · rintro ⟨group, found, inGroup⟩
        have notNew : p ≠ merged := by
          rintro rfl
          obtain rfl := Option.some.inj (isFinal.symm.trans found)
          exact inFinal inGroup
        rw [others p notNew] at found
        split at found
        · cases found
        · exact ⟨group, found, inGroup⟩
  · refine @AreComponents.merge _ _ _ _ _ (Grouping.members final) agrees.components some_ ?_ ?_
    · intro a
      show a ∈ final ↔ _
      rw [mem']
      apply or_congr_right
      constructor
      · rintro ⟨hit, member, group, found, inGroup⟩
        obtain ⟨group', found', b, inGrouping, inGroup'⟩ := (isHit hit).mp member
        obtain rfl := Option.some.inj (found.symm.trans found')
        exact ⟨Grouping.members group, ⟨hit, group, found, rfl⟩, ⟨b, inGrouping, inGroup'⟩, inGroup⟩
      · rintro ⟨_, ⟨hit, group, found, rfl⟩, ⟨b, inGrouping, inGroup'⟩, inGroup⟩
        exact ⟨hit, (isHit hit).mpr ⟨group, found, b, inGrouping, inGroup'⟩, group, found, inGroup⟩
    · intro part
      constructor
      · rintro ⟨p, group, found, rfl⟩
        by_cases new : p = merged
        · subst new
          obtain rfl := Option.some.inj (isFinal.symm.trans found)
          exact .inl rfl
        · have found' := (others p new).symm.trans found
          split at found'
          · cases found'
          · next notHit =>
            refine .inr ⟨⟨p, group, found', rfl⟩, ?_⟩
            rintro ⟨b, inGrouping, inGroup⟩
            exact notHit ((isHit p).mpr ⟨group, found', b, inGrouping, inGroup⟩)
      · rintro (rfl | ⟨⟨p, group, found, rfl⟩, apart⟩)
        · exact ⟨merged, final, isFinal, rfl⟩
        · have notHit : p ∉ heap.hits grouping := by
            intro hit
            obtain ⟨group', found', b, inGrouping, inGroup⟩ := (isHit p).mp hit
            obtain rfl := Option.some.inj (found.symm.trans found')
            exact apart ⟨b, inGrouping, inGroup⟩
          have notNew : p ≠ merged := by
            rintro rfl
            rw [unused] at found
            cases found
          exact ⟨p, group, by rw [others p notNew, if_neg notHit, found], rfl⟩

theorem addGroupings_agrees (alloc : Allocator) (groupings : List Grouping) (agrees : heap.Agrees family)
    (some_ : ∀ grouping ∈ groupings, ∃ a, a ∈ grouping) :
    ∃ heap', addGroupings alloc groupings heap = some heap' ∧
      heap'.Agrees { group | group ∈ family ∨ ∃ grouping ∈ groupings, group = Grouping.members grouping } := by
  induction groupings generalizing heap family with
  | nil =>
    refine ⟨heap, rfl, ?_⟩
    have same : { group | group ∈ family ∨ ∃ grouping ∈ ([] : List Grouping), group = Grouping.members grouping } = family := by
      apply Set.ext
      intro group
      simp
    rw [same]
    exact agrees
  | cons grouping groupings ih =>
    obtain ⟨heap₁, first, agrees₁⟩ := addGrouping_agrees alloc agrees (some_ grouping List.mem_cons_self)
    obtain ⟨heap', rest, agrees'⟩ := ih agrees₁ fun other member => some_ other (List.mem_cons_of_mem _ member)
    refine ⟨heap', by rw [addGroupings, first]; exact rest, ?_⟩
    have same : { group | group ∈ insert (Grouping.members grouping) family ∨ ∃ other ∈ groupings, group = Grouping.members other } =
        { group | group ∈ family ∨ ∃ other ∈ grouping :: groupings, group = Grouping.members other } := by
      apply Set.ext
      intro group
      simp only [Set.mem_ofPred_eq, Set.mem_insert_iff, List.mem_cons, exists_eq_or_imp]
      exact or_assoc.trans or_left_comm
    rw [← same]
    exact agrees'

theorem copyGroups_ok (groups : StdMap Nat Grouping) (pointers : List Nat) (ret : StdSet Grouping)
    (live : ∀ p ∈ pointers, (groups.lookup p).isSome = true) :
    ∃ ret', copyGroups groups pointers ret = some ret' ∧
      ∀ group, group ∈ ret' ↔ group ∈ ret ∨ ∃ p ∈ pointers, groups.lookup p = some group := by
  induction pointers generalizing ret with
  | nil => exact ⟨ret, rfl, by simp⟩
  | cons p pointers ih =>
    obtain ⟨here, found⟩ := Option.isSome_iff_exists.mp (live p List.mem_cons_self)
    obtain ⟨ret', rest, mem⟩ := ih (ret.insert here) fun q member => live q (List.mem_cons_of_mem _ member)
    refine ⟨ret', by rw [copyGroups, found]; exact rest, ?_⟩
    intro group
    rw [mem, StdSet.mem_insert]
    constructor
    · rintro ((rfl | old) | ⟨q, member, isGroup⟩)
      · exact .inr ⟨p, List.mem_cons_self, found⟩
      · exact .inl old
      · exact .inr ⟨q, List.mem_cons_of_mem _ member, isGroup⟩
    · rintro (old | ⟨q, member, isGroup⟩)
      · exact .inl (.inr old)
      · rcases List.mem_cons.mp member with rfl | member
        · exact .inl (.inl (Option.some.inj (isGroup.symm.trans found)))
        · exact .inr ⟨q, member, isGroup⟩

end GroupHeap

namespace CWallet

variable (ctx : AddressContext) (w : CWallet)

def OwnInputAddress (pcoin : CTransaction) (a : CTxDestination) : Prop := ∃ txin ∈ pcoin.vin, w.inputAddress ctx txin = some a

def ChangeAddress (pcoin : CTransaction) (a : CTxDestination) : Prop := ∃ txout ∈ pcoin.vout, changeAddress ctx txout = some a

def OwnOutputAddress (pcoin : CTransaction) (a : CTxDestination) : Prop := ∃ txout ∈ pcoin.vout, outputAddress ctx txout = some a

def HasOwnInput (pcoin : CTransaction) : Prop := ∃ txin ∈ pcoin.vin, w.isMineTxIn ctx txin ≠ ISMINE_NO

def SpendsFromAddress (pcoin : CTransaction) : Prop := ∃ a, w.OwnInputAddress ctx pcoin a

section Neighbours

-- Which transactions have their change grouped with their inputs.
variable (Groups : CTransaction → Prop)

def Grouped (pcoin : CTransaction) (a : CTxDestination) : Prop := w.OwnInputAddress ctx pcoin a ∨ ChangeAddress ctx pcoin a ∧ Groups pcoin

def Neighbours (a b : CTxDestination) : Prop :=
  ∃ pcoin ∈ w.transactions, w.Grouped ctx Groups pcoin a ∧ w.Grouped ctx Groups pcoin b

structure AreAddressComponents (ret : StdSet Grouping) : Prop where
  nonempty : ∀ group ∈ ret, ∃ a, a ∈ group
  disjoint : ∀ group ∈ ret, ∀ other ∈ ret, ∀ a, a ∈ group → a ∈ other → group = other
  covers : ∀ a, (∃ group ∈ ret, a ∈ group) ↔ ∃ pcoin ∈ w.transactions, w.Grouped ctx Groups pcoin a ∨ OwnOutputAddress ctx pcoin a
  linked : ∀ group ∈ ret, ∀ a ∈ group, ∀ b, b ∈ group ↔ Relation.ReflTransGen (w.Neighbours ctx Groups) a b

end Neighbours

variable {pcoin : CTransaction} {g : Grouping}

theorem mem_txGrouping : a ∈ w.txGrouping ctx pcoin ↔ w.Grouped ctx (w.SpendsFromAddress ctx) pcoin a := by
  have inputs : ∀ b, b ∈ pcoin.vin.filterMap (w.inputAddress ctx) ↔ w.OwnInputAddress ctx pcoin b := fun b => List.mem_filterMap
  unfold txGrouping
  dsimp only
  cases any_mine : (pcoin.vin.filterMap (w.inputAddress ctx)).isEmpty with
  | true =>
    have none : pcoin.vin.filterMap (w.inputAddress ctx) = [] := List.isEmpty_iff.mp any_mine
    rw [if_neg (by decide), StdSet.mem_insertAll, inputs]
    constructor
    · exact fun member => .inl (member.resolve_right (StdSet.notMem_empty a))
    · rintro (own | ⟨_, b, own⟩)
      · exact .inl own
      · have member := (inputs b).mpr own
        rw [none] at member
        cases member
  | false =>
    obtain ⟨b, member⟩ := List.exists_mem_of_ne_nil _ (List.isEmpty_eq_false_iff.mp any_mine)
    rw [if_pos (by decide), StdSet.mem_insertAll, StdSet.mem_insertAll, inputs, List.mem_filterMap]
    constructor
    · rintro (change | own | none)
      · exact .inr ⟨change, b, (inputs b).mp member⟩
      · exact .inl own
      · exact absurd none (StdSet.notMem_empty a)
    · rintro (own | ⟨change, _⟩)
      · exact .inr (.inl own)
      · exact .inl change

def IsGroupingOf (pcoin : CTransaction) (g : Grouping) : Prop :=
  (g = w.txGrouping ctx pcoin ∧ ∃ a, a ∈ g) ∨ ∃ a, OwnOutputAddress ctx pcoin a ∧ g = StdSet.insert ∅ a

theorem mem_addTxGroupings : g ∈ w.addTxGroupings ctx groupings pcoin ↔ g ∈ groupings ∨ w.IsGroupingOf ctx pcoin g := by
  have outputs : g ∈ (pcoin.vout.filterMap (outputAddress ctx)).map (fun address => StdSet.insert ∅ address) ↔
      ∃ a, OwnOutputAddress ctx pcoin a ∧ g = StdSet.insert ∅ a := by
    rw [List.mem_map]
    apply exists_congr
    intro a
    rw [List.mem_filterMap]
    exact and_congr_right fun _ => eq_comm
  have grouped : (pcoin.vin.length > 0 ∧ (w.txGrouping ctx pcoin).toList.length > 0) ↔ ∃ a, a ∈ w.txGrouping ctx pcoin := by
    constructor
    · rintro ⟨_, some_⟩
      exact List.exists_mem_of_length_pos some_
    · rintro ⟨a, member⟩
      have input : ∃ b, w.OwnInputAddress ctx pcoin b := by
        rcases (w.mem_txGrouping ctx).mp member with own | ⟨_, own⟩
        · exact ⟨a, own⟩
        · exact own
      obtain ⟨_, txin, isInput, _⟩ := input
      exact ⟨List.length_pos_of_mem isInput, List.length_pos_of_mem member⟩
  unfold addTxGroupings IsGroupingOf
  dsimp only
  rw [StdSet.mem_insertAll, outputs]
  by_cases some_ : pcoin.vin.length > 0 ∧ (w.txGrouping ctx pcoin).toList.length > 0
  · have member := grouped.mp some_
    rw [if_pos some_, StdSet.mem_insert]
    constructor
    · rintro (output | rfl | old)
      · exact .inr (.inr output)
      · exact .inr (.inl ⟨rfl, member⟩)
      · exact .inl old
    · rintro (old | ⟨same, _⟩ | output)
      · exact .inr (.inr old)
      · exact .inr (.inl same)
      · exact .inl output
  · rw [if_neg some_]
    constructor
    · rintro (output | old)
      · exact .inr (.inr output)
      · exact .inl old
    · rintro (old | ⟨rfl, member⟩ | output)
      · exact .inr old
      · exact absurd (grouped.mpr member) some_
      · exact .inl output

theorem mem_collectGroupings :
    g ∈ w.collectGroupings ctx ↔ ∃ pcoin ∈ w.transactions, w.IsGroupingOf ctx pcoin g := by
  have folded : ∀ (txs : List CTransaction) (groupings : StdSet Grouping),
      g ∈ txs.foldl (w.addTxGroupings ctx) groupings ↔ g ∈ groupings ∨ ∃ pcoin ∈ txs, w.IsGroupingOf ctx pcoin g := by
    intro txs
    induction txs with
    | nil => simp
    | cons pcoin txs ih =>
      intro groupings
      rw [List.foldl_cons, ih, mem_addTxGroupings, or_assoc]
      apply or_congr_right
      simp only [List.mem_cons, exists_eq_or_imp]
  rw [collectGroupings, folded]
  exact or_iff_right (StdSet.notMem_empty g)

theorem isGroupingOf_nonempty (isGrouping : w.IsGroupingOf ctx pcoin g) : ∃ a, a ∈ g := by
  rcases isGrouping with ⟨_, some_⟩ | ⟨a, _, rfl⟩
  · exact some_
  · exact ⟨a, StdSet.mem_insert.mpr (.inl rfl)⟩

def groupingFamily : Set (Set CTxDestination) := { group | ∃ g ∈ w.collectGroupings ctx, group = Grouping.members g }

theorem getAddressGroupings_ok (alloc : Allocator) : ∃ ret, w.getAddressGroupings ctx alloc = some ret ∧
    AreComponents (w.groupingFamily ctx) { part | ∃ group ∈ ret, part = Grouping.members group } := by
  obtain ⟨heap, looped, agrees⟩ := GroupHeap.addGroupings_agrees alloc (w.collectGroupings ctx).toList GroupHeap.agrees_empty (by
    intro grouping member
    obtain ⟨pcoin, _, isGrouping⟩ := (w.mem_collectGroupings ctx).mp member
    exact w.isGroupingOf_nonempty ctx isGrouping)
  obtain ⟨ret, copied, mem⟩ := GroupHeap.copyGroups_ok heap.groups heap.uniqueGroupings.toList ∅ fun p member => (agrees.live p).mp member
  have family : { group | group ∈ (∅ : Set (Set CTxDestination)) ∨ ∃ g ∈ (w.collectGroupings ctx).toList, group = Grouping.members g } =
      w.groupingFamily ctx := by
    apply Set.ext
    intro group
    exact or_iff_right (Set.notMem_empty group)
  have parts : heap.parts = { part | ∃ group ∈ ret, part = Grouping.members group } := by
    apply Set.ext
    intro part
    constructor
    · rintro ⟨p, group, found, rfl⟩
      have live : p ∈ heap.uniqueGroupings := (agrees.live p).mpr (by rw [found]; rfl)
      exact ⟨group, (mem group).mpr (.inr ⟨p, live, found⟩), rfl⟩
    · rintro ⟨group, member, rfl⟩
      obtain ⟨p, _, found⟩ := ((mem group).mp member).resolve_left (StdSet.notMem_empty group)
      exact ⟨p, group, found, rfl⟩
  refine ⟨ret, ?_, ?_⟩
  · rw [getAddressGroupings, looped]
    exact copied
  · rw [← family, ← parts]
    exact agrees.components

theorem neighbours_iff :
    Components.Linked (w.groupingFamily ctx) a b ↔ Relation.ReflTransGen (w.Neighbours ctx (w.SpendsFromAddress ctx)) a b := by
  constructor
  · intro linked
    induction linked with
    | refl => exact .refl
    | tail _ together ih =>
      obtain ⟨_, ⟨g, member, rfl⟩, first, second⟩ := together
      obtain ⟨pcoin, inWallet, ⟨rfl, _⟩ | ⟨c, _, rfl⟩⟩ := (w.mem_collectGroupings ctx).mp member
      · exact ih.tail ⟨pcoin, inWallet, (w.mem_txGrouping ctx).mp first, (w.mem_txGrouping ctx).mp second⟩
      · -- The grouping of an output has one address.
        obtain rfl := (StdSet.mem_insert.mp first).resolve_right (StdSet.notMem_empty _)
        obtain rfl := (StdSet.mem_insert.mp second).resolve_right (StdSet.notMem_empty _)
        exact ih
  · intro chain
    induction chain with
    | refl => exact .refl
    | tail _ neighbours ih =>
      obtain ⟨pcoin, inWallet, first, second⟩ := neighbours
      have member := (w.mem_txGrouping ctx).mpr first
      have isGrouping : w.txGrouping ctx pcoin ∈ w.collectGroupings ctx :=
        (w.mem_collectGroupings ctx).mpr ⟨pcoin, inWallet, .inl ⟨rfl, _, member⟩⟩
      exact ih.tail ⟨_, ⟨_, isGrouping, rfl⟩, member, (w.mem_txGrouping ctx).mpr second⟩

/-- `GetAddressGroupings` returns the connected components of the wallet's addresses, where the change of a transaction belongs to its
inputs when one of these spends from an address. -/
theorem address_groupings_are_components (alloc : Allocator) : ∃ ret, w.getAddressGroupings ctx alloc = some ret ∧
    w.AreAddressComponents ctx (w.SpendsFromAddress ctx) ret := by
  obtain ⟨ret, returned, components⟩ := w.getAddressGroupings_ok ctx alloc
  refine ⟨ret, returned, ?_, ?_, ?_, ?_⟩
  · exact fun group member => components.nonempty _ ⟨group, member, rfl⟩
  · intro group member other member' a inGroup inOther
    have same := components.disjoint _ ⟨group, member, rfl⟩ _ ⟨other, member', rfl⟩ a inGroup inOther
    exact StdSet.ext fun b => iff_of_eq (congrFun same b)
  · intro a
    constructor
    · rintro ⟨group, member, inGroup⟩
      obtain ⟨_, ⟨g, listed, rfl⟩, inside⟩ := (components.covers a).mp ⟨_, ⟨group, member, rfl⟩, inGroup⟩
      obtain ⟨pcoin, inWallet, ⟨rfl, _⟩ | ⟨c, own, rfl⟩⟩ := (w.mem_collectGroupings ctx).mp listed
      · exact ⟨pcoin, inWallet, .inl ((w.mem_txGrouping ctx).mp inside)⟩
      · obtain rfl := (StdSet.mem_insert.mp inside).resolve_right (StdSet.notMem_empty a)
        exact ⟨pcoin, inWallet, .inr own⟩
    · rintro ⟨pcoin, inWallet, grouped⟩
      have grouping : ∃ g ∈ w.collectGroupings ctx, a ∈ g := by
        rcases grouped with grouped | own
        · have member := (w.mem_txGrouping ctx).mpr grouped
          exact ⟨_, (w.mem_collectGroupings ctx).mpr ⟨pcoin, inWallet, .inl ⟨rfl, a, member⟩⟩, member⟩
        · exact ⟨_, (w.mem_collectGroupings ctx).mpr ⟨pcoin, inWallet, .inr ⟨a, own, rfl⟩⟩, StdSet.mem_insert.mpr (.inl rfl)⟩
      obtain ⟨g, listed, inside⟩ := grouping
      obtain ⟨_, ⟨group, member, rfl⟩, inGroup⟩ := (components.covers a).mpr ⟨_, ⟨g, listed, rfl⟩, inside⟩
      exact ⟨group, member, inGroup⟩
  · intro group member a inGroup b
    exact (components.linked _ ⟨group, member, rfl⟩ a inGroup b).trans (w.neighbours_iff ctx)

end CWallet

def firstKeyID : CKeyID := .filled 1

def secondKeyID : CKeyID := .filled 2

def firstPubKey : CPubKey := 0x02 :: List.replicate 32 1

def secondPubKey : CPubKey := 0x02 :: List.replicate 32 2

def twoKeysContext : AddressContext where
  keystore :=
    { haveKey := fun id => decide (id.bytes = firstKeyID.bytes ∨ id.bytes = secondKeyID.bytes)
      getCScript := fun _ => none
      haveWatchOnly := fun _ => false
      haveMultiSig := fun _ => false
      getID := fun pubkey => if pubkey = firstPubKey then firstKeyID else if pubkey = secondPubKey then secondKeyID else .filled 9 }
  rounds := 1
  inAddressBook _ := false

def bareMultisig : CScript := (getScriptForMultisig 1 [firstPubKey, secondPubKey]).getD []

/-- One coin for either of the two keys, as a bare multisig. -/
def bareOutput : CTxOut := { nValue := COIN, scriptPubKey := bareMultisig }

def changeOutput (id : CKeyID) : CTxOut := { nValue := 49990000, scriptPubKey := (CTxDestination.keyID id).script }

def bareInput : CTxIn := { prevout := ⟨1, 0⟩ }

def foreignInput : CTxIn := { prevout := ⟨7, 1⟩ }

def receivingTx : CTransaction := { hash := 1, vin := [foreignInput], vout := [bareOutput] }

def bareSpendTx : CTransaction := { hash := 2, vin := [bareInput], vout := [changeOutput firstKeyID, changeOutput secondKeyID] }

def bareWallet : CWallet where
  mapWallet := ((∅ : StdMap uint256 CWalletTx).insert 2 { tx := bareSpendTx }).insert 1 { tx := receivingTx }

def counter : Allocator where
  new live := live.sum + 1
  fresh live member := by
    have bound := List.single_le_sum (fun _ _ => Nat.zero_le _) _ member
    omega

namespace CWallet

theorem bareMultisig_solver : CScript.solver bareMultisig = some (.TX_MULTISIG, [[1], firstPubKey, secondPubKey, [2]]) := by
  obtain ⟨script, made, found⟩ := @solver_getScriptForMultisig [firstPubKey, secondPubKey] 1 (by decide)
    (by decide) (by decide) (by decide)
  rw [bareMultisig, made]
  exact found

theorem bareOutput_owned : twoKeysContext.isMineScript bareOutput.scriptPubKey = ISMINE_SPENDABLE := by
  show twoKeysContext.keystore.isMine 1 bareMultisig = _
  rw [OwnedScripts.isMine, bareMultisig_solver]
  decide

theorem change_owned {id : CKeyID} (own : id = firstKeyID ∨ id = secondKeyID) :
    twoKeysContext.isMineScript (changeOutput id).scriptPubKey = ISMINE_SPENDABLE := by
  show twoKeysContext.keystore.isMine 1 (CTxDestination.keyID id).script = _
  rw [OwnedScripts.isMine, solver_keyID_script]
  rcases own with rfl | rfl <;> decide

theorem bareWallet_transactions : bareWallet.transactions = [receivingTx, bareSpendTx] := rfl

theorem bareInput_address : bareWallet.inputAddress twoKeysContext bareInput = none := by
  have spent : bareWallet.prevOutOf bareInput = some bareOutput := rfl
  have bare : twoKeysContext.addressOf bareOutput.scriptPubKey = none := by
    rw [AddressContext.addressOf, bareOutput, extractDestination, bareMultisig_solver]
  rw [inputAddress, spent, Option.bind_some, bare]
  split <;> rfl

theorem foreignInput_address : bareWallet.inputAddress twoKeysContext foreignInput = none := by
  have unknown : bareWallet.prevOutOf foreignInput = none := rfl
  rw [inputAddress, unknown, Option.bind_none]
  split <;> rfl

theorem bareWallet_linked (linked : Components.Linked (bareWallet.groupingFamily twoKeysContext) a b) : a = b := by
  have noInput : ∀ pcoin ∈ bareWallet.transactions, ∀ c, ¬bareWallet.OwnInputAddress twoKeysContext pcoin c := by
    intro pcoin member c ⟨txin, isInput, address⟩
    rw [bareWallet_transactions] at member
    rcases List.mem_pair.mp member with rfl | rfl
    · obtain rfl := List.mem_singleton.mp isInput
      rw [foreignInput_address] at address
      cases address
    · obtain rfl := List.mem_singleton.mp isInput
      rw [bareInput_address] at address
      cases address
  induction linked with
  | refl => rfl
  | tail _ together ih =>
    obtain ⟨_, ⟨g, member, rfl⟩, first, second⟩ := together
    obtain ⟨pcoin, inWallet, ⟨rfl, _⟩ | ⟨c, _, rfl⟩⟩ := (bareWallet.mem_collectGroupings twoKeysContext).mp member
    · rcases (bareWallet.mem_txGrouping twoKeysContext).mp first with own | ⟨_, c, own⟩
      · exact absurd own (noInput pcoin inWallet _)
      · exact absurd own (noInput pcoin inWallet c)
    · rw [ih, (StdSet.mem_insert.mp first).resolve_right (StdSet.notMem_empty _),
        (StdSet.mem_insert.mp second).resolve_right (StdSet.notMem_empty _)]

/-- Change of a transaction whose own inputs have no address is not grouped. -/
theorem change_apart : ¬∀ (ctx : AddressContext) (w : CWallet) (alloc : Allocator), ∃ ret, w.getAddressGroupings ctx alloc = some ret ∧
    w.AreAddressComponents ctx (w.HasOwnInput ctx) ret := by
  intro always
  obtain ⟨ret, returned, claimed⟩ := always twoKeysContext bareWallet counter
  obtain ⟨ret', returned', components⟩ := bareWallet.getAddressGroupings_ok twoKeysContext counter
  obtain rfl := Option.some.inj (returned.symm.trans returned')
  have address : ∀ id, twoKeysContext.addressOf (CTxDestination.keyID id).script = some (.keyID id) := fun id =>
    extractDestination_script _ false (by simp)
  have inWallet : bareSpendTx ∈ bareWallet.transactions := by
    rw [bareWallet_transactions]
    exact List.mem_cons_of_mem _ List.mem_cons_self
  have own : bareWallet.HasOwnInput twoKeysContext bareSpendTx := by
    refine ⟨bareInput, List.mem_cons_self, ?_⟩
    have spent : bareWallet.prevOutOf bareInput = some bareOutput := rfl
    rw [isMineTxIn, spent]
    dsimp only
    rw [bareOutput_owned]
    decide
  have change : ∀ id, id = firstKeyID ∨ id = secondKeyID →
      bareWallet.Grouped twoKeysContext (bareWallet.HasOwnInput twoKeysContext) bareSpendTx (.keyID id) := by
    intro id isOwn
    have member : changeOutput id ∈ bareSpendTx.vout := by rcases isOwn with rfl | rfl <;> simp [bareSpendTx]
    refine .inr ⟨⟨_, member, ?_⟩, own⟩
    have isChange : twoKeysContext.isChange (changeOutput id) = true := by
      rw [AddressContext.isChange, change_owned isOwn, if_pos (by decide), changeOutput, address]
      rfl
    rw [changeAddress, isChange, if_pos rfl, changeOutput, address]
  have first := change firstKeyID (.inl rfl)
  have second := change secondKeyID (.inr rfl)
  obtain ⟨group, member, inGroup⟩ := (claimed.covers (.keyID firstKeyID)).mpr ⟨bareSpendTx, inWallet, .inl first⟩
  have together := (claimed.linked group member _ inGroup (.keyID secondKeyID)).mpr (.single ⟨bareSpendTx, inWallet, first, second⟩)
  have linked := (components.linked _ ⟨group, member, rfl⟩ _ inGroup (.keyID secondKeyID)).mp together
  exact absurd (bareWallet_linked linked) (by decide)

end CWallet

end SchillingCoin
