import Mathlib.Data.Int.ConditionallyCompleteOrder
import Mathlib.Order.ConditionallyCompleteLattice.Basic
import Mathlib.Order.WithBot
import SchillingCoin.Lib.Best
import SchillingCoin.Masternode.Payments

/-!
Sporks, after `sporkid.h`, `spork.h` and `spork.cpp`: the messages that a node accepts, the active message of
each spork and its value, and the agreement of nodes that receive the same messages in different orders.
-/

namespace SchillingCoin

structure CSporkDef where
  sporkId : Int
  defaultValue : Int
  name : String
  deriving DecidableEq, Repr

def sporkDefs : List CSporkDef :=
  [⟨10001, 0, "SPORK_2_SWIFTTX"⟩,
    ⟨10002, 0, "SPORK_3_SWIFTTX_BLOCK_FILTERING"⟩,
    ⟨10004, 1000, "SPORK_5_MAX_VALUE"⟩,
    ⟨10007, 4070908800, "SPORK_8_MASTERNODE_PAYMENT_ENFORCEMENT"⟩,
    ⟨10008, 4070908800, "SPORK_9_MASTERNODE_BUDGET_ENFORCEMENT"⟩,
    ⟨10012, 4070908800, "SPORK_13_ENABLE_SUPERBLOCKS"⟩,
    ⟨10013, 4070908800, "SPORK_14_NEW_PROTOCOL_ENFORCEMENT"⟩,
    ⟨10014, 4070908800, "SPORK_15_NEW_PROTOCOL_ENFORCEMENT_2"⟩,
    ⟨10015, 4070908800, "SPORK_16_ZEROCOIN_MAINTENANCE_MODE"⟩,
    ⟨10017, 4070908800, "SPORK_17_COLDSTAKING_ENFORCEMENT"⟩]

structure CSporkMessage where
  nSporkID : Int
  nValue : Int
  nTimeSigned : Int
  nMessVersion : MessageVersion := .hash
  vchSig : List UInt8 := []
  deriving DecidableEq, Repr

structure SporkContext where
  network : Network
  fLiteMode : Bool := false
  nChainHeight : Option Int
  getAdjustedTime : Int
  checkSignature : CSporkMessage → Bool
  checkSignatureOld : CSporkMessage → Bool

/-- The sporks of a node: the messages it can relay by hash, the active one of each spork, and those in the database. -/
structure CSporkManager where
  mapSporks : StdMap uint256 CSporkMessage := ∅
  mapSporksActive : StdMap Int CSporkMessage := ∅
  sporkDB : StdMap Int CSporkMessage := ∅

namespace CSporkManager

variable (nSporkID : Int) (ctx : SporkContext) (spork : CSporkMessage) (active : Option CSporkMessage)
  (id : Int) (l sporks : List CSporkMessage)

def getSporkNameByID : String :=
  match sporkDefs.find? fun d => d.sporkId == nSporkID with
  | none => "Unknown"
  | some d => d.name

/-- The old key may still sign for a time, messages signed before the new key is enforced. -/
def validSignature : Bool :=
  let fRequireNew := decide (spork.nTimeSigned ≥ ctx.network.consensus.nTime_EnforceNewSporkKey)
  ctx.checkSignature spork ||
    (!fRequireNew && decide (ctx.getAdjustedTime < ctx.network.consensus.nTime_RejectOldSporkKey) &&
      ctx.checkSignatureOld spork)

/-- The branch `spork` of `ProcessSpork`. The hash of a message is over its id, its value and its time. -/
def processSpork (hash : Int → Int → Int → uint256) (ctx : SporkContext) (s : CSporkManager) (spork : CSporkMessage) :
    CSporkManager :=
  if ctx.fLiteMode then s
  else match ctx.nChainHeight with
    | none => s
    | some nChainHeight =>
      if getSporkNameByID spork.nSporkID = "Unknown" then s
      else if spork.nTimeSigned > ctx.getAdjustedTime + 2 * 60 * 60 then s
      else if spork.nMessVersion ≠ .hash ∧ ctx.network.consensus.isMessSigV2 (nChainHeight - 600) then s
      else if (s.mapSporksActive.lookup spork.nSporkID).any fun active => decide (active.nTimeSigned ≥ spork.nTimeSigned) then s
      else if !validSignature ctx spork then s
      else
        { mapSporks := s.mapSporks.insert (hash spork.nSporkID spork.nValue spork.nTimeSigned) spork
          mapSporksActive := s.mapSporksActive.insert spork.nSporkID spork
          sporkDB := s.sporkDB.insert spork.nSporkID spork }

/-- The value of the active message, else the default, and -1 for an id that is not known. -/
def getSporkValue (s : CSporkManager) (nSporkID : Int) : Int :=
  match s.mapSporksActive.lookup nSporkID with
  | some active => active.nValue
  | none => match sporkDefs.find? fun d => d.sporkId == nSporkID with
    | some d => d.defaultValue
    | none => -1

def isSporkActive (s : CSporkManager) (nSporkID : Int) : Bool :=
  decide (s.getSporkValue nSporkID < ctx.getAdjustedTime)

/-- The message passes every check of `ProcessSpork` but the comparison with the active message. -/
def acceptable : Bool :=
  !ctx.fLiteMode && ctx.nChainHeight.any (fun nChainHeight =>
    !(spork.nMessVersion != .hash && ctx.network.consensus.isMessSigV2 (nChainHeight - 600))) &&
  getSporkNameByID spork.nSporkID != "Unknown" &&
  decide (spork.nTimeSigned ≤ ctx.getAdjustedTime + 2 * 60 * 60) && validSignature ctx spork

def signedAt : WithBot Int := active.elim ⊥ fun m => m.nTimeSigned

instance decidableSignedAtLt (active : Option CSporkMessage) (time : Int) : Decidable (signedAt active < (time : WithBot Int)) :=
  match active with
  | none => isTrue (by simp [signedAt])
  | some a => decidable_of_iff (a.nTimeSigned < time) (by simp [signedAt])

def adopt (nSporkID : Int) (active : Option CSporkMessage) (spork : CSporkMessage) : Option CSporkMessage :=
  if spork.nSporkID = nSporkID ∧ acceptable ctx spork = true ∧ signedAt active < spork.nTimeSigned then some spork else active

theorem any_signed_ge (time : Int) : active.any (fun a => decide (a.nTimeSigned ≥ time)) = true ↔ ¬signedAt active < time := by
  cases active with
  | none => simp [signedAt]
  | some a => simp [signedAt]

theorem processSpork_active (hash : Int → Int → Int → uint256) (ctx : SporkContext) (s : CSporkManager)
    (spork : CSporkMessage) (id : Int) :
    (processSpork hash ctx s spork).mapSporksActive.lookup id = adopt ctx id (s.mapSporksActive.lookup id) spork := by
  have kept : (¬(acceptable ctx spork = true ∧ signedAt (s.mapSporksActive.lookup spork.nSporkID) < spork.nTimeSigned)) →
      s.mapSporksActive.lookup id = adopt ctx id (s.mapSporksActive.lookup id) spork := by
    intro refused
    rw [adopt, if_neg]
    rintro ⟨same, passes, newer⟩
    rw [← same] at newer
    exact refused ⟨passes, newer⟩
  unfold processSpork
  split
  · rename_i lite
    exact kept fun ⟨passes, _⟩ => by simp [acceptable, lite] at passes
  · rename_i full
    split
    · rename_i none_
      exact kept fun ⟨passes, _⟩ => by simp [acceptable, none_] at passes
    · rename_i nChainHeight tip
      split
      · rename_i unknown
        exact kept fun ⟨passes, _⟩ => by simp [acceptable, unknown] at passes
      · rename_i known
        split
        · rename_i future
          refine kept fun ⟨passes, _⟩ => ?_
          simp only [acceptable, Bool.and_eq_true, decide_eq_true_eq] at passes
          omega
        · rename_i past
          split
          · rename_i old
            exact kept fun ⟨passes, _⟩ => by simp [acceptable, tip, old] at passes
          · rename_i version
            split
            · rename_i recent
              exact kept fun ⟨_, newer⟩ => (any_signed_ge _ _).mp recent newer
            · rename_i newer
              rw [any_signed_ge, not_not] at newer
              split
              · rename_i forged
                exact kept fun ⟨passes, _⟩ => by
                  simp only [acceptable, Bool.and_eq_true] at passes
                  simp [passes.2] at forged
              · rename_i signed
                have passes : acceptable ctx spork = true := by
                  simp only [Bool.not_eq_true, Bool.not_eq_false'] at signed
                  simp only [acceptable, tip, Option.any_some, Bool.and_eq_true, Bool.not_eq_true', decide_eq_true_eq,
                    bne_iff_ne, signed, and_true]
                  refine ⟨⟨⟨by simpa using full, ?_⟩, known⟩, by omega⟩
                  simpa using version
                simp only [StdMap.lookup_insert_ite]
                split
                · rename_i same
                  rw [adopt, if_pos ⟨same.symm, passes, same ▸ newer⟩]
                · rename_i other
                  rw [adopt, if_neg]
                  exact fun h => other h.1.symm

theorem adopt_keeps :
    Best.Keeps (fun m : CSporkMessage => m.nSporkID = id ∧ acceptable ctx m = true) (fun m => (m.nTimeSigned : WithBot Int))
      some signedAt (adopt ctx id) := by
  intro active m
  by_cases newer : m.nSporkID = id ∧ acceptable ctx m = true ∧ signedAt active < m.nTimeSigned
  · exact Or.inl ⟨⟨newer.1, newer.2.1⟩, newer.2.2.le, if_pos newer⟩
  · refine Or.inr ⟨fun good => ?_, if_neg newer⟩
    by_contra more
    exact newer ⟨good.1, good.2, not_le.mp more⟩

theorem adopt_strict (active : Option CSporkMessage) (m : CSporkMessage) :
    adopt ctx id active m = active ∨ signedAt active < m.nTimeSigned := by
  unfold adopt
  split
  · rename_i newer
    exact Or.inr newer.2.2
  · exact Or.inl rfl

variable (hash : Int → Int → Int → uint256) (ctx : SporkContext)

def receive (s : CSporkManager) (l : List CSporkMessage) : CSporkManager := l.foldl (processSpork hash ctx) s

theorem receive_active (s : CSporkManager) (l : List CSporkMessage) (id : Int) :
    (receive hash ctx s l).mapSporksActive.lookup id = l.foldl (adopt ctx id) (s.mapSporksActive.lookup id) := by
  induction l generalizing s with
  | nil => rfl
  | cons m l ih =>
    rw [receive, List.foldl_cons, List.foldl_cons, ← processSpork_active hash ctx s m id]
    exact ih _

def Delivers : Prop := ∀ m, m ∈ l ↔ m ∈ sporks

/-- The last message signed for a spork, among those newer than the active one, is the only one signed at that time. -/
def Unambiguous (active : Option CSporkMessage) (id : Int) : Prop :=
  ∀ m ∈ sporks, ∀ m' ∈ sporks, m.nSporkID = id → m'.nSporkID = id → m.nTimeSigned = m'.nTimeSigned →
    (∀ k ∈ sporks, k.nSporkID = id → k.nTimeSigned ≤ m.nTimeSigned) → signedAt active < m.nTimeSigned → m = m'

theorem signedAt_receive_le {s : CSporkManager} {l : List CSporkMessage} (among : ∀ m ∈ l, m ∈ l') (id : Int) :
    signedAt ((receive hash ctx s l).mapSporksActive.lookup id) ≤ signedAt ((receive hash ctx s l').mapSporksActive.lookup id) := by
  rw [receive_active, receive_active]
  exact (adopt_keeps ctx id).value_le (fun _ => rfl) among _

theorem signedAt_injective {a : Option CSporkMessage} (same : signedAt a = signedAt b) :
    a.map CSporkMessage.nTimeSigned = b.map CSporkMessage.nTimeSigned := by
  cases a with
  | none =>
    cases b with
    | none => rfl
    | some b => simp [signedAt] at same
  | some a =>
    cases b with
    | none => simp [signedAt] at same
    | some b => simpa [signedAt] using same

theorem first_delivered_stays (s : CSporkManager) (sporks : List CSporkMessage) (passes : acceptable ctx m = true)
    (last : ∀ k ∈ sporks, k.nSporkID = m.nSporkID → k.nTimeSigned ≤ m.nTimeSigned)
    (newer : signedAt (s.mapSporksActive.lookup m.nSporkID) < m.nTimeSigned) :
    (receive hash ctx s (m :: sporks)).mapSporksActive.lookup m.nSporkID = some m := by
  rw [receive_active, List.foldl_cons]
  have first : adopt ctx m.nSporkID (s.mapSporksActive.lookup m.nSporkID) m = some m := if_pos ⟨rfl, passes, newer⟩
  rw [first]
  rcases (adopt_keeps ctx m.nSporkID).source_lt (fun _ => rfl) (adopt_strict ctx m.nSporkID) sporks (some m) with
    same | ⟨k, member, good, more, _⟩
  · exact same
  · have bound : (k.nTimeSigned : WithBot Int) ≤ m.nTimeSigned := WithBot.coe_le_coe.mpr (last k member good.1)
    exact absurd more (not_lt.mpr bound)

theorem unambiguous_agree {sporks l : List CSporkMessage} {id : Int} (valid : ∀ m ∈ sporks, acceptable ctx m = true)
    (start : s.mapSporksActive.lookup id = s'.mapSporksActive.lookup id)
    (clear : Unambiguous sporks (s.mapSporksActive.lookup id) id) (delivers : Delivers l sporks)
    (delivers' : Delivers l' sporks) :
    (receive hash ctx s l).mapSporksActive.lookup id = (receive hash ctx s' l').mapSporksActive.lookup id := by
  rw [receive_active, receive_active, ← start]
  generalize s.mapSporksActive.lookup id = active at clear ⊢
  have keeps := adopt_keeps ctx id
  have times : ∀ l₁ l₂, Delivers l₁ sporks → Delivers l₂ sporks →
      signedAt (l₁.foldl (adopt ctx id) active) ≤ signedAt (l₂.foldl (adopt ctx id) active) := by
    intro l₁ l₂ d₁ d₂
    exact keeps.value_le (fun _ => rfl) (fun m member => (d₂ m).mpr ((d₁ m).mp member)) _
  have equal := le_antisymm (times l l' delivers delivers') (times l' l delivers' delivers)
  rcases keeps.source_lt (fun _ => rfl) (adopt_strict ctx id) l active with same | ⟨m, member, good, more, same⟩
  · rcases keeps.source_lt (fun _ => rfl) (adopt_strict ctx id) l' active with same' | ⟨m', _, _, more', same'⟩
    · rw [same, same']
    · rw [same, same'] at equal
      exact absurd equal more'.ne
  · rcases keeps.source_lt (fun _ => rfl) (adopt_strict ctx id) l' active with same' | ⟨m', member', good', _, same'⟩
    · rw [same, same'] at equal
      exact absurd equal more.ne'
    · rw [same, same'] at equal
      have sameTime : m.nTimeSigned = m'.nTimeSigned := WithBot.coe_injective equal
      rw [same, same']
      refine congrArg some (clear m ((delivers m).mp member) m' ((delivers' m').mp member') good.1 good'.1 sameTime ?_ more)
      intro k listed own
      have bound := keeps.le (fun _ => rfl) active ((delivers k).mpr listed) ⟨own, valid k listed⟩
      rw [same] at bound
      exact WithBot.coe_le_coe.mp bound

/-- Nodes that start with the same active messages and receive the same valid messages, in any orders and with
repetitions, end with the same sporks active and signed at the same times. They end with the same message of a
spork, whatever the orders, exactly when the messages signed last for it agree. The signing time of an active
spork never decreases. -/
theorem sporks_converge (sporks : List CSporkMessage) (valid : ∀ m ∈ sporks, acceptable ctx m = true) (s s' : CSporkManager)
    (start : ∀ id, s.mapSporksActive.lookup id = s'.mapSporksActive.lookup id) :
    (∀ l l', Delivers l sporks → Delivers l' sporks → ∀ id,
      ((receive hash ctx s l).mapSporksActive.lookup id).map CSporkMessage.nTimeSigned =
        ((receive hash ctx s' l').mapSporksActive.lookup id).map CSporkMessage.nTimeSigned) ∧
    (∀ id, (∀ l l', Delivers l sporks → Delivers l' sporks →
      (receive hash ctx s l).mapSporksActive.lookup id = (receive hash ctx s' l').mapSporksActive.lookup id) ↔
        Unambiguous sporks (s.mapSporksActive.lookup id) id) ∧
    ∀ before m l, Delivers l sporks → before ++ [m] <+: l → ∀ id a,
      (receive hash ctx s before).mapSporksActive.lookup id = some a →
        ∃ b, (receive hash ctx s (before ++ [m])).mapSporksActive.lookup id = some b ∧ a.nTimeSigned ≤ b.nTimeSigned := by
  refine ⟨fun l l' delivers delivers' id => ?_, fun id => ⟨fun agree m listed m' listed' own own' tie last newer => ?_, ?_⟩, ?_⟩
  · apply signedAt_injective
    have same : (receive hash ctx s' l').mapSporksActive.lookup id = (receive hash ctx s l').mapSporksActive.lookup id := by
      rw [receive_active, receive_active, start]
    rw [same]
    exact le_antisymm (signedAt_receive_le hash ctx (fun m member => (delivers' m).mpr ((delivers m).mp member)) id)
      (signedAt_receive_le hash ctx (fun m member => (delivers m).mpr ((delivers' m).mp member)) id)
  · -- Of two messages signed last, the one delivered first stays.
    subst own
    have delivers : ∀ k ∈ sporks, Delivers (k :: sporks) sporks := by
      intro k member x
      rw [List.mem_cons, or_iff_right_of_imp]
      rintro rfl
      exact member
    have first := first_delivered_stays hash ctx s sporks (valid m listed) last newer
    have second := first_delivered_stays hash ctx s' sporks (valid m' listed')
      (by rw [own', ← tie]; exact last) (by rw [own', ← tie, ← start]; exact newer)
    have equal := agree _ _ (delivers m listed) (delivers m' listed')
    rw [own'] at second
    rw [first, second] at equal
    exact Option.some.inj equal
  · exact fun clear l l' delivers delivers' => unambiguous_agree hash ctx valid (start id) clear delivers delivers'
  · intro before m l _ _ id a active
    rw [receive_active] at active
    rw [receive_active, List.foldl_append, active]
    rcases adopt_keeps ctx id (some a) m with ⟨_, newer, same⟩ | ⟨_, same⟩
    · exact ⟨m, same, WithBot.coe_le_coe.mp newer⟩
    · exact ⟨a, same, le_rfl⟩

def trustingNode : SporkContext where
  network := .main
  nChainHeight := some 1100000
  getAdjustedTime := 1700000000
  checkSignature := fun _ => true
  checkSignatureOld := fun _ => false

def superblockSpork (nValue nTimeSigned : Int) : CSporkMessage := { nSporkID := 10012, nValue, nTimeSigned }

theorem later_spork_converges :
    ((receive (fun _ _ _ => 0) trustingNode {} [superblockSpork 5 100, superblockSpork 6 200]).mapSporksActive.lookup 10012) =
      ((receive (fun _ _ _ => 0) trustingNode {} [superblockSpork 6 200, superblockSpork 5 100]).mapSporksActive.lookup 10012) := by
  have valid : ∀ m ∈ [superblockSpork 5 100, superblockSpork 6 200], acceptable trustingNode m = true := by decide
  refine ((sporks_converge (fun _ _ _ => 0) trustingNode _ valid {} {} fun _ => rfl).2.1 10012).mpr ?_ _ _ (fun _ => Iff.rfl) ?_
  · intro m listed m' listed' _ _ tie
    simp only [List.mem_cons, List.not_mem_nil, or_false] at listed listed'
    rcases listed with rfl | rfl <;> rcases listed' with rfl | rfl
    · intros; rfl
    · cases tie
    · cases tie
    · intros; rfl
  · intro m
    simp [or_comm]

/-- Two messages of one spork that were signed in the same second. -/
theorem sporks_of_one_second_diverge :
    (∀ m ∈ [superblockSpork 5 100, superblockSpork 6 100], acceptable trustingNode m = true) ∧
      (receive (fun _ _ _ => 0) trustingNode {} [superblockSpork 5 100, superblockSpork 6 100]).mapSporksActive.lookup 10012 ≠
        (receive (fun _ _ _ => 0) trustingNode {} [superblockSpork 6 100, superblockSpork 5 100]).mapSporksActive.lookup 10012 := by
  decide

end CSporkManager

end SchillingCoin
