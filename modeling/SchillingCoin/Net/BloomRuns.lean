import SchillingCoin.Lib.Run
import SchillingCoin.Net.BloomRelevance

/-!
The filter of a peer: the messages `filterload`, `filteradd` and `filterclear` of `main.cpp` and the transactions the filter is asked
for, in any order. What `IsRelevantAndUpdate` cuts outside a script ends the run; an exception leaves the peer as it was.
-/

namespace SchillingCoin

open Codec DataStream

def NODE_BLOOM : Nat := 4

structure BloomPeer where
  pfilter : Option CBloomFilter := some {}
  fRelayTxes : Bool := false
  nMisbehavior : Nat := 0
  /-- For the record: the keys inserted since the filter was last loaded or cleared. -/
  inserted : List (List UInt8) := []
  deriving DecidableEq, Repr

inductive FilterMessage where
  | filterload (vRecv : List UInt8)
  | filteradd (vRecv : List UInt8)
  | filterclear
  deriving DecidableEq, Repr

inductive BloomEvent where
  | message (m : FilterMessage)
  | relevant (tx : CTransaction)
  deriving DecidableEq, Repr

namespace BloomPeer

variable (pfrom : BloomPeer) (nLocalServices : Nat) (s : Option BloomPeer) (event : BloomEvent)

def misbehaving (howmuch : Nat) : BloomPeer := { pfrom with nMisbehavior := pfrom.nMisbehavior + howmuch }

def receive {α : Type} (unserialize : StreamReader α) (vRecv : List UInt8) : Except BloomStop α :=
  match unserialize vRecv with
  | .error failure => .error (.thrown failure)
  | .ok (value, _) => .ok value

def filterLoad (vRecv : List UInt8) : Except BloomStop BloomPeer :=
  (receive (CBloomFilter.unserialize {}) vRecv).map fun filter =>
    if filter.isWithinSizeConstraints then { pfrom with pfilter := some filter.updateEmptyFull, fRelayTxes := true, inserted := [] }
    else { pfrom.misbehaving 100 with fRelayTxes := true }

def filterAdd (vRecv : List UInt8) : Except BloomStop BloomPeer :=
  (receive unserializeBytes vRecv).bind fun vData =>
    if vData.length > MAX_SCRIPT_ELEMENT_SIZE then .ok (pfrom.misbehaving 100)
    else match pfrom.pfilter with
      | none => .ok (pfrom.misbehaving 100)
      | some filter => (filter.insert vData).map fun filter =>
        { pfrom with pfilter := some filter, inserted := vData :: pfrom.inserted }

def filterClear : BloomPeer := { pfrom with pfilter := some {}, fRelayTxes := true, inserted := [] }

def processMessage (pfrom : BloomPeer) (m : FilterMessage) : Except BloomStop BloomPeer :=
  if nLocalServices &&& NODE_BLOOM = 0 then .ok (pfrom.misbehaving 100)
  else match m with
    | .filterload vRecv => pfrom.filterLoad vRecv
    | .filteradd vRecv => pfrom.filterAdd vRecv
    | .filterclear => .ok pfrom.filterClear

/-- `pfilter->IsRelevantAndUpdate(tx)`, when there is a filter. -/
def askRelevant (tx : CTransaction) : Except BloomStop BloomPeer :=
  match pfrom.pfilter with
  | none => .ok pfrom
  | some filter => (filter.isRelevantAndUpdate tx).map fun r =>
    { pfrom with pfilter := some r.filter, inserted := r.inserted ++ pfrom.inserted }

def handle (pfrom : BloomPeer) : BloomEvent → Except BloomStop BloomPeer
  | .message m => pfrom.processMessage nLocalServices m
  | .relevant tx => pfrom.askRelevant tx

def outcome : Except BloomStop BloomPeer → Option BloomPeer
  | .ok pfrom => some pfrom
  | .error (.thrown _) => some pfrom
  | .error _ => none

/-- `none` once a call divided by zero or left a vector or a script. -/
def next : Option BloomPeer :=
  s.bind fun pfrom => pfrom.outcome (pfrom.handle nLocalServices event)

/-- The filter contains the hash of the transaction, an outpoint it spends, or data that one of its scripts pushes. -/
def Mentions (filter : CBloomFilter) (tx : CTransaction) : Prop :=
  filter.contains (CBloomFilter.hashKey tx.getHash) = .ok true ∨
    (∃ txin ∈ tx.vin, filter.contains (CBloomFilter.outPointKey txin.prevout) = .ok true) ∨
    ∃ script ∈ tx.vout.map (·.scriptPubKey) ++ tx.vin.map (·.scriptSig), ∃ data ∈ CScript.pushedData script,
      data ≠ [] ∧ filter.contains data = .ok true

def Safe : Prop :=
  ∃ pfrom filter, s = some pfrom ∧ pfrom.pfilter = some filter ∧ (∀ key ∈ pfrom.inserted, filter.contains key = .ok true) ∧
    ∀ tx, tx.containsZerocoins = false → Mentions filter tx → ∃ r, filter.isRelevantAndUpdate tx = .ok r ∧ r.fFound = true

def EventFits : Prop :=
  ∀ pfrom filter tx, s = some pfrom → pfrom.pfilter = some filter → event = .relevant tx → filter.ScanFits tx

structure Sound (pfrom : BloomPeer) (filter : CBloomFilter) : Prop where
  loaded : pfrom.pfilter = some filter
  shielded : filter.Shielded
  kept : ∀ key ∈ pfrom.inserted, filter.has key = true

variable {pfrom : BloomPeer} {filter : CBloomFilter} {tx : CTransaction} {event : BloomEvent}

theorem sound_default (loaded : pfrom.pfilter = some {}) (nothing : pfrom.inserted = []) :
    pfrom.Sound {} where
  loaded := loaded
  shielded := .inl rfl
  kept := by
    rw [nothing]
    intro key member
    cases member

theorem Sound.misbehaving (sound : pfrom.Sound filter) (howmuch : Nat) :
    (pfrom.misbehaving howmuch).Sound filter := ⟨sound.loaded, sound.shielded, sound.kept⟩

def Handled (result : Except BloomStop BloomPeer) : Prop :=
  (∃ pfrom filter, result = .ok pfrom ∧ pfrom.Sound filter) ∨ ∃ failure, result = .error (.thrown failure)

theorem receive_cases (unserialize : StreamReader α) (vRecv : List UInt8) :
    (∃ value, receive unserialize vRecv = .ok value) ∨ ∃ failure, receive unserialize vRecv = .error (.thrown failure) := by
  unfold receive
  split
  · exact .inr ⟨_, rfl⟩
  · exact .inl ⟨_, rfl⟩

section

variable (sound : pfrom.Sound filter)

include sound

theorem filterLoad_handled (vRecv : List UInt8) : Handled (pfrom.filterLoad vRecv) := by
  unfold filterLoad
  rcases receive_cases (CBloomFilter.unserialize {}) vRecv with ⟨loaded, read⟩ | ⟨failure, failed⟩
  · rw [read]
    dsimp only [Except.map]
    split
    · exact .inl ⟨_, loaded.updateEmptyFull, rfl, rfl, loaded.updateEmptyFull_shielded, fun key member => nomatch member⟩
    · exact .inl ⟨_, filter, rfl, sound.loaded, sound.shielded, sound.kept⟩
  · rw [failed]
    exact .inr ⟨failure, rfl⟩

theorem filterAdd_handled (vRecv : List UInt8) : Handled (pfrom.filterAdd vRecv) := by
  unfold filterAdd
  rcases receive_cases unserializeBytes vRecv with ⟨vData, read⟩ | ⟨failure, failed⟩
  · rw [read, sound.loaded]
    dsimp only [Except.bind]
    split
    · exact .inl ⟨_, filter, rfl, sound.misbehaving 100⟩
    · obtain ⟨grown, inserted, grows, has⟩ := CBloomFilter.insert_ok sound.shielded vData
      rw [inserted]
      refine .inl ⟨_, grown, rfl, rfl, grows.shielded sound.shielded, ?_⟩
      intro key member
      rcases List.mem_cons.mp member with rfl | member
      · exact has
      · exact grows.has (sound.kept key member)
  · rw [failed]
    exact .inr ⟨failure, rfl⟩

theorem processMessage_handled (m : FilterMessage) : Handled (pfrom.processMessage nLocalServices m) := by
  unfold processMessage
  split
  · exact .inl ⟨_, filter, rfl, sound.misbehaving 100⟩
  · cases m with
    | filterload vRecv => exact filterLoad_handled sound vRecv
    | filteradd vRecv => exact filterAdd_handled sound vRecv
    | filterclear => exact .inl ⟨_, {}, rfl, sound_default rfl rfl⟩

theorem askRelevant_handled (fits : filter.ScanFits tx) : Handled (pfrom.askRelevant tx) := by
  rw [askRelevant, sound.loaded]
  dsimp only
  rcases CBloomFilter.isRelevantAndUpdate_fits sound.shielded fits with ⟨r, asked, keeps⟩ | ⟨failure, failed⟩
  · rw [asked]
    refine .inl ⟨_, r.filter, rfl, rfl, keeps.grows.shielded sound.shielded, ?_⟩
    intro key member
    rcases List.mem_append.mp member with new | old
    · exact keeps.has key new
    · exact keeps.grows.has (sound.kept key old)
  · rw [failed]
    exact .inr ⟨failure, rfl⟩

theorem askRelevant_outside (unfit : ¬filter.ScanFits tx) : pfrom.askRelevant tx = .error (.memory .outOfRange) := by
  rw [askRelevant, sound.loaded]
  dsimp only
  rw [CBloomFilter.isRelevantAndUpdate_outside sound.shielded unfit]
  rfl

theorem outcome_handled (handled : Handled result) :
    ∃ pfrom' filter', pfrom.outcome result = some pfrom' ∧ pfrom'.Sound filter' := by
  rcases handled with ⟨pfrom', filter', rfl, sound'⟩ | ⟨failure, rfl⟩
  · exact ⟨pfrom', filter', rfl, sound'⟩
  · exact ⟨pfrom, filter, rfl, sound⟩

end

theorem mentions_relevant (shielded : filter.Shielded) (free : tx.containsZerocoins = false)
    (mentions : Mentions filter tx) : ∃ r, filter.isRelevantAndUpdate tx = .ok r ∧ r.fFound = true := by
  have known : ∀ {key}, filter.contains key = .ok true → filter.has key = true := by
    intro key contained
    rw [CBloomFilter.contains_ok shielded] at contained
    exact Except.ok.inj contained
  have picked : ∀ {data}, data ≠ [] ∧ filter.contains data = .ok true → filter.picks data = true := by
    intro data both
    rw [CBloomFilter.picks, List.isEmpty_eq_false_iff.mpr both.1, known both.2]
    rfl
  have parts := free
  unfold CTransaction.containsZerocoins at parts
  rw [Bool.or_eq_false_iff, Bool.or_eq_false_iff] at parts
  have plainIn : ∀ txin ∈ tx.vin, txin.isZerocoinSpend = false := fun txin member =>
    Bool.eq_false_iff.mpr (List.any_eq_false.mp parts.1.1 txin member)
  have plainOut : ∀ txout ∈ tx.vout, txout.isZerocoinMint = false := fun txout member =>
    Bool.eq_false_iff.mpr (List.any_eq_false.mp parts.2 txout member)
  have long : ∀ txout ∈ tx.vout, ¬CBloomFilter.ShortMint txout := by
    intro txout member short
    rw [CBloomFilter.ShortMint, plainOut txout member] at short
    cases short.1
  unfold CBloomFilter.isRelevantAndUpdate
  cases full : filter.isFull with
  | true => exact ⟨_, rfl, rfl⟩
  | false =>
    rw [if_neg (by decide)]
    cases empty : filter.isEmpty with
    | true =>
      -- An empty filter mentions nothing.
      have nothing : ∀ key, filter.contains key ≠ .ok true := by
        intro key contained
        rw [CBloomFilter.contains, full, empty] at contained
        cases contained
      rcases mentions with known | ⟨_, _, known⟩ | ⟨_, _, _, _, _, known⟩ <;> exact absurd known (nothing _)
    | false =>
      rw [if_neg (by decide), CBloomFilter.contains_ok shielded]
      obtain ⟨r, outputs, keeps, found, untouched⟩ := CBloomFilter.outputsLoop_ok shielded tx.getHash tx.vout long (i := 0)
        (r := ⟨filter.has (CBloomFilter.hashKey tx.getHash), filter, []⟩) ⟨.refl filter, fun key member => by cases member⟩ fun _ => rfl
      dsimp only [Except.bind]
      rw [outputs]
      dsimp only
      cases foundHere : r.fFound with
      | true => exact ⟨r, rfl, foundHere⟩
      | false =>
        have nothing := Bool.or_eq_false_iff.mp (found.symm.trans foundHere)
        have inputs : filter.inputsLoop tx.vin = .ok true := by
          rw [CBloomFilter.inputsLoop_plain shielded plainIn]
          apply congrArg Except.ok
          apply List.any_eq_true.mpr
          rcases mentions with hash | ⟨txin, member, spent⟩ | ⟨script, place, data, pushed, datum⟩
          · rw [known hash] at nothing
            cases nothing.1
          · refine ⟨txin, member, ?_⟩
            rw [CBloomFilter.endsAt, known spent, Bool.true_or]
          · rcases List.mem_append.mp place with ofOutput | ofInput
            · obtain ⟨txout, member, rfl⟩ := List.mem_map.mp ofOutput
              apply absurd _ (List.any_eq_false.mp nothing.2 txout member)
              rw [CBloomFilter.matchesOutput, plainOut txout member, if_neg (by decide)]
              exact List.any_eq_true.mpr ⟨data, pushed, picked datum⟩
            · obtain ⟨txin, member, rfl⟩ := List.mem_map.mp ofInput
              refine ⟨txin, member, ?_⟩
              rw [CBloomFilter.endsAt, plainIn txin member, if_neg (by decide), List.any_eq_true.mpr ⟨data, pushed, picked datum⟩,
                Bool.or_true]
        have same : r.filter.inputsLoop tx.vin = filter.inputsLoop tx.vin := by rw [untouched foundHere]
        rw [if_neg (by decide), same, inputs]
        exact ⟨_, rfl, rfl⟩

theorem Sound.safe (sound : pfrom.Sound filter) : Safe (some pfrom) := by
  refine ⟨pfrom, filter, rfl, sound.loaded, ?_, fun tx free mentions => mentions_relevant sound.shielded free mentions⟩
  intro key member
  rw [CBloomFilter.contains_ok sound.shielded, sound.kept key member]

def Inv : Prop := ∀ pfrom, s = some pfrom → ∃ filter, pfrom.Sound filter

theorem handle_fits (sound : pfrom.Sound filter) (fits : EventFits (some pfrom) event) :
    Handled (pfrom.handle nLocalServices event) := by
  cases event with
  | message m => exact processMessage_handled nLocalServices sound m
  | relevant tx => exact askRelevant_handled sound (fits pfrom filter tx rfl sound.loaded rfl)

theorem next_fits (sound : pfrom.Sound filter) (fits : EventFits (some pfrom) event) :
    ∃ pfrom' filter', next nLocalServices (some pfrom) event = some pfrom' ∧ pfrom'.Sound filter' :=
  outcome_handled sound (handle_fits nLocalServices sound fits)

theorem next_outside (sound : pfrom.Sound filter) (unfit : ¬EventFits (some pfrom) event) :
    next nLocalServices (some pfrom) event = none := by
  cases event with
  | message m =>
    apply absurd _ unfit
    intro _ _ _ _ _ relevant
    cases relevant
  | relevant tx =>
    have outside : ¬filter.ScanFits tx := by
      intro fits
      apply unfit
      intro pfrom' filter' tx' here loaded asked
      obtain rfl := Option.some.inj here
      obtain rfl := Option.some.inj (sound.loaded.symm.trans loaded)
      obtain rfl := BloomEvent.relevant.inj asked
      exact fits
    show pfrom.outcome (pfrom.askRelevant tx) = none
    rw [askRelevant_outside sound outside]
    rfl

theorem inv_next (event : BloomEvent) (inv : Inv s) : Inv (next nLocalServices s event) := by
  cases s with
  | none =>
    intro pfrom here
    cases here
  | some pfrom =>
    obtain ⟨filter, sound⟩ := inv pfrom rfl
    intro pfrom' here
    by_cases fits : EventFits (some pfrom) event
    · obtain ⟨after, filter', reached, sound'⟩ := next_fits nLocalServices sound fits
      rw [reached] at here
      obtain rfl := Option.some.inj here
      exact ⟨filter', sound'⟩
    · rw [next_outside nLocalServices sound fits] at here
      cases here

/-- A filter is safe and forgets nothing through any messages and transactions, exactly as long as no transaction it scans has a
zerocoin script that ends before the offset at which it is cut. -/
theorem safe_iff_fits (nLocalServices : Nat) (events : List BloomEvent) :
    (∀ before, before <+: events → Safe (before.foldl (next nLocalServices) (some {}))) ↔
      ∀ before event, before ++ [event] <+: events → EventFits (before.foldl (next nLocalServices) (some {})) event := by
  have start : (({} : BloomPeer)).Sound {} := sound_default rfl rfl
  apply Run.kept_iff_meets Inv Safe
  · intro pfrom here
    obtain rfl := Option.some.inj here
    exact ⟨{}, start⟩
  · exact inv_next nLocalServices
  · exact start.safe
  · intro s event inv safe
    obtain ⟨pfrom, _, rfl, _, _, _⟩ := safe
    obtain ⟨filter, sound⟩ := inv pfrom rfl
    constructor
    · intro after
      by_contra unfit
      obtain ⟨_, _, reached, _⟩ := after
      rw [next_outside nLocalServices sound unfit] at reached
      cases reached
    · intro fits
      obtain ⟨after, filter', reached, sound'⟩ := next_fits nLocalServices sound fits
      rw [reached]
      exact sound'.safe

def shortMintEvents : List BloomEvent :=
  [.message (.filterload [1, 1, 1, 0, 0, 0, 0, 0, 0, 0, 0]),
    .relevant { hash := 1, vin := [], vout := [{ nValue := 0, scriptPubKey := [OP_ZEROCOINMINT] }] }]

theorem short_mint_outside : ¬∀ nLocalServices events before, before <+: events →
    Safe (before.foldl (next nLocalServices) (some ({} : BloomPeer))) := by
  intro always
  obtain ⟨_, _, reached, _⟩ := always NODE_BLOOM shortMintEvents shortMintEvents (List.prefix_refl _)
  have loaded : next NODE_BLOOM (some {}) (.message (.filterload [1, 1, 1, 0, 0, 0, 0, 0, 0, 0, 0])) =
      some { pfilter := some ⟨[1], false, false, 1, 0, 0⟩, fRelayTxes := true } := by decide
  have sound : ({ pfilter := some ⟨[1], false, false, 1, 0, 0⟩, fRelayTxes := true } : BloomPeer).Sound ⟨[1], false, false, 1, 0, 0⟩ :=
    ⟨rfl, .inr (by decide), fun key member => nomatch member⟩
  rw [shortMintEvents, List.foldl_cons, loaded, List.foldl_cons, List.foldl_nil, next_outside NODE_BLOOM sound] at reached
  · cases reached
  · intro fits
    obtain full | empty | long := fits _ _ _ rfl rfl rfl
    · cases full
    · cases empty
    · exact long.1 _ List.mem_cons_self (by decide)

end BloomPeer

end SchillingCoin
