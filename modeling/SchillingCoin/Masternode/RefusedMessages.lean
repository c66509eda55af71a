import SchillingCoin.Masternode.Collateral

/-!
What a refused announcement or ping of a masternode leaves behind. The handlers remember the hash of a message before they check it.
-/

universe u v

namespace StdMap

variable {K : Type u} {V : Type v} {hidden : K → Prop} {m n : StdMap K V} [DecidableEq K]

def AgreeOff (hidden : K → Prop) (m n : StdMap K V) : Prop := ∀ k, ¬hidden k → m.lookup k = n.lookup k

theorem AgreeOff.insert (agree : AgreeOff hidden m n) (k : K) (v : V) : AgreeOff hidden (m.insert k v) (n.insert k v) := by
  intro k' shown
  rw [lookup_insert_ite, lookup_insert_ite, agree k' shown]

theorem AgreeOff.erase (agree : AgreeOff hidden m n) (k : K) : AgreeOff hidden (m.erase k) (n.erase k) := by
  intro k' shown
  rw [lookup_erase_ite, lookup_erase_ite, agree k' shown]

theorem AgreeOff.filter (agree : AgreeOff hidden m n) (test : K → V → Bool) : AgreeOff hidden (filter test m) (filter test n) := by
  intro k shown
  rw [lookup_filter, lookup_filter, agree k shown]

variable {k k' : K}

theorem lookup_insertNew_ne (v : V) (other : k' ≠ k) : (insertNew m k v).lookup k' = m.lookup k' := by
  unfold insertNew
  split
  · rfl
  · rw [lookup_insert_ite, if_neg other]

theorem AgreeOff.insertNew (agree : AgreeOff hidden m n) (k : K) (v : V) : AgreeOff hidden (insertNew m k v) (insertNew n k v) := by
  intro k' shown
  by_cases same : k' = k
  · subst same
    unfold StdMap.insertNew
    rw [agree k' shown]
    split
    · exact agree k' shown
    · rw [lookup_insert_ite, lookup_insert_ite, if_pos rfl, if_pos rfl]
  · rw [lookup_insertNew_ne v same, lookup_insertNew_ne v same, agree k' shown]

theorem lookup_filter_insertNew_none {v : V} (unknown : m.lookup k = none) (dropped : test k' v = false) :
    (StdMap.filter test (insertNew m k' v)).lookup k = none := by
  rw [lookup_filter]
  by_cases same : k = k'
  · subst same
    rw [insertNew, if_neg (by simp [unknown]), lookup_insert_ite, if_pos rfl, Option.filter_some, dropped]
    rfl
  · rw [lookup_insertNew_ne v same, unknown]
    rfl

theorem lookup_filter_insertNew_some {x : V} (known : m.lookup k = some x) (kept : test k x = true) :
    (StdMap.filter test (insertNew m k' v)).lookup k = some x := by
  have there : (insertNew m k' v).lookup k = some x := by
    by_cases same : k = k'
    · subst same
      rw [insertNew, if_pos (by simp [known]), known]
    · rw [lookup_insertNew_ne v same, known]
  rw [lookup_filter, there, Option.filter_some, kept]
  rfl

end StdMap

namespace SchillingCoin

namespace CMasternodeMan

open StdMap

section Messages

variable (crypto : MasternodeCrypto) (ctx : MasternodeManContext) (m : CMasternodeMan)

/-- An announcement with a bad signature, a bad ping or an unrelated collateral, or a ping with a bad signature. -/
def Refused : Op → Prop
  | .mnb mnb =>
    mnb.checkSignature crypto = false ∨ (mnb.lastPing.isDefault || !mnb.lastPing.checkSigTime crypto ctx m) = true ∨
      mnb.isInputAssociatedWithPubkey crypto ctx = false
  | .mnp mnp => ((m.find mnp.vin).any fun pmn => crypto.checkPing pmn.pubKeyMasternode mnp) = false
  | _ => False

/-- The node takes no such messages, or it knows the hash. -/
def Stopped : Op → Prop
  | .mnb mnb => ignores ctx = true ∨ (m.mapSeenMasternodeBroadcast.lookup (mnb.getHash crypto)).isSome = true
  | .mnp mnp => ignores ctx = true ∨ (m.mapSeenMasternodePing.lookup (mnp.getHash crypto)).isSome = true
  | _ => False

def Signable : Op → Prop
  | .mnb mnb => ∃ rival : CMasternode, rival.getHash crypto = mnb.getHash crypto ∧ rival.checkSignature crypto = true
  | .mnp mnp => ∃ (rival : CMasternodePing) (key : CPubKey), rival.getHash crypto = mnp.getHash crypto ∧ crypto.checkPing key rival = true
  | _ => False

variable (mnb : CMasternode)

def received : CMasternode := { mnb with activeState := .enabled }

def Valid : Op → Prop
  | .mnb mnb =>
    ignores ctx = false ∧ (m.checkAndUpdate crypto ctx (received mnb)).1 = true ∧
      (received mnb).isInputAssociatedWithPubkey crypto ctx = true
  | .mnp mnp => ignores ctx = false ∧ (mnp.checkAndUpdate crypto ctx true m).1 = true
  | _ => False

def runFrom (ops : List (MasternodeManContext × Op)) : CMasternodeMan := ops.foldl (fun m d => (m.step crypto d).2) m

def effect (d : MasternodeManContext × Op) : Option CMasternode × List CMasternode := ((m.step crypto d).1, (m.step crypto d).2.vMasternodes)

/-- The message changes no entry, and a later valid message has the effect it has without it. -/
def LeavesNoTrace (d : MasternodeManContext × Op) : Prop :=
  (m.step crypto d).2.vMasternodes = m.vMasternodes ∧
    ∀ (between : List (MasternodeManContext × Op)) (later : MasternodeManContext × Op),
      Valid crypto later.1 (runFrom crypto m between) later.2 →
      effect crypto (runFrom crypto (m.step crypto d).2 between) later = effect crypto (runFrom crypto m between) later

/-- What `CheckInputsAndAdd` returns. -/
def acceptsInputs : Bool :=
  if ctx.fMasterNode ∧ mnb.vin.prevout = ctx.activePrevout ∧ mnb.pubKeyMasternode = ctx.activePubKey then true
  else if mnb.lastPing.isDefault || !mnb.lastPing.checkSigTime crypto ctx m then false
  else if (m.find mnb.vin).any CMasternode.isEnabled then true
  else ctx.lockMain && ctx.acceptableVin crypto mnb.vin && !decide (ctx.getInputAge mnb.vin < MASTERNODE_MIN_CONFIRMATIONS) &&
    sigTimeAfterCollateral ctx mnb

def remember : CMasternodeMan :=
  { m with mapSeenMasternodeBroadcast := m.mapSeenMasternodeBroadcast.insert (mnb.getHash crypto) mnb }

def Accepted : Prop :=
  m.mapSeenMasternodeBroadcast.lookup (mnb.getHash crypto) = none ∧ Valid crypto ctx m (.mnb mnb) ∧
    ((m.remember crypto (received mnb)).checkAndUpdate crypto ctx (received mnb)).2.acceptsInputs crypto ctx (received mnb) = true

/-- After the announcement, no later valid one of another outpoint is ignored as known that is new without it. -/
def HidesNoOther : Prop :=
  ∀ (between : List (MasternodeManContext × Op)) (ctx' : MasternodeManContext) (other : CMasternode),
    other.vin.prevout ≠ mnb.vin.prevout → Valid crypto ctx' (runFrom crypto m between) (.mnb other) →
    (runFrom crypto m between).mapSeenMasternodeBroadcast.lookup (other.getHash crypto) = none →
    (runFrom crypto (m.step crypto (ctx, .mnb mnb)).2 between).mapSeenMasternodeBroadcast.lookup (other.getHash crypto) = none

end Messages

/-- The lists are the same, and what is remembered is the same apart from some hashes. -/
structure Agree (broadcasts pings : uint256 → Prop) (m n : CMasternodeMan) : Prop where
  list : m.vMasternodes = n.vMasternodes
  broadcasts : AgreeOff broadcasts m.mapSeenMasternodeBroadcast n.mapSeenMasternodeBroadcast
  pings : AgreeOff pings m.mapSeenMasternodePing n.mapSeenMasternodePing

def Alike {α : Type} (broadcasts pings : uint256 → Prop) (r r' : α × CMasternodeMan) : Prop := r.1 = r'.1 ∧ Agree broadcasts pings r.2 r'.2

variable {crypto : MasternodeCrypto} {ctx : MasternodeManContext} {m n : CMasternodeMan} {broadcasts pings : uint256 → Prop}

theorem alike_ite [Decidable c] (yes : c → Alike broadcasts pings r r') (no : ¬c → Alike broadcasts pings s s') :
    Alike broadcasts pings (if c then r else s) (if c then r' else s') := by
  by_cases h : c
  · rw [if_pos h, if_pos h]
    exact yes h
  · rw [if_neg h, if_neg h]
    exact no h

namespace Agree

theorem refl (m : CMasternodeMan) : Agree broadcasts pings m m := ⟨rfl, fun _ _ => rfl, fun _ _ => rfl⟩

section

variable (agree : Agree broadcasts pings m n)

include agree

theorem answer (a : α) : Alike broadcasts pings (a, m) (a, n) := ⟨rfl, agree⟩

theorem find (vin : CTxIn) : m.find vin = n.find vin := by
  unfold CMasternodeMan.find
  rw [agree.list]

theorem modify (vin : CTxIn) (change : CMasternode → CMasternode) :
    Agree broadcasts pings (m.modify vin change) (n.modify vin change) := by
  refine ⟨?_, agree.broadcasts, agree.pings⟩
  unfold CMasternodeMan.modify
  rw [agree.list]

theorem remove (vin : CTxIn) : Agree broadcasts pings (m.remove vin) (n.remove vin) := by
  refine ⟨?_, agree.broadcasts, agree.pings⟩
  unfold CMasternodeMan.remove
  rw [agree.list]

theorem add (mn : CMasternode) : Alike broadcasts pings (m.add mn) (n.add mn) := by
  unfold CMasternodeMan.add
  refine alike_ite (fun _ => agree.answer none) fun _ => ?_
  rw [agree.find]
  cases n.find mn.vin with
  | some _ => exact agree.answer none
  | none => exact ⟨rfl, by rw [agree.list], agree.broadcasts, agree.pings⟩

theorem withBroadcasts {seen : StdMap uint256 CMasternode} (same : AgreeOff broadcasts seen seen') :
    Agree broadcasts pings { m with mapSeenMasternodeBroadcast := seen } { n with mapSeenMasternodeBroadcast := seen' } :=
  ⟨agree.list, same, agree.pings⟩

theorem withPings {seen : StdMap uint256 CMasternodePing} (same : AgreeOff pings seen seen') :
    Agree broadcasts pings { m with mapSeenMasternodePing := seen } { n with mapSeenMasternodePing := seen' } :=
  ⟨agree.list, agree.broadcasts, same⟩

theorem checkSigTime (p : CMasternodePing) : p.checkSigTime crypto ctx m = p.checkSigTime crypto ctx n := by
  unfold CMasternodePing.checkSigTime
  rw [agree.find]

theorem ping (fRequireEnabled : Bool) (p : CMasternodePing) :
    Alike broadcasts pings (p.checkAndUpdate crypto ctx fRequireEnabled m) (p.checkAndUpdate crypto ctx fRequireEnabled n) := by
  unfold CMasternodePing.checkAndUpdate
  refine alike_ite (fun _ => agree.answer false) fun _ => alike_ite (fun _ => agree.answer false) fun _ => ?_
  rw [agree.find]
  cases n.find p.vin with
  | none => exact agree.answer false
  | some pmn =>
    iterate 5 refine alike_ite (fun _ => agree.answer false) fun _ => ?_
    refine ⟨rfl, Agree.modify (agree.withBroadcasts ?_) _ _⟩
    intro k shown
    by_cases here : k = CMasternode.getHash crypto { pmn with lastPing := p }
    · subst here
      rw [agree.broadcasts _ shown]
      cases n.mapSeenMasternodeBroadcast.lookup _ with
      | none => exact agree.broadcasts _ shown
      | some mnb =>
        dsimp only
        rw [lookup_insert_ite, lookup_insert_ite, if_pos rfl, if_pos rfl]
    · have same := agree.broadcasts k shown
      split <;> split <;> simp only [lookup_insert_ite, if_neg here, same]

theorem takePing (mnb : CMasternode) : Agree broadcasts pings (m.takePing crypto ctx mnb) (n.takePing crypto ctx mnb) := by
  unfold CMasternodeMan.takePing
  dsimp only
  have pinged : Alike broadcasts pings (if mnb.lastPing.isDefault then (true, m) else mnb.lastPing.checkAndUpdate crypto ctx false m)
      (if mnb.lastPing.isDefault then (true, n) else mnb.lastPing.checkAndUpdate crypto ctx false n) :=
    alike_ite (fun _ => agree.answer true) fun _ => agree.ping false mnb.lastPing
  rw [pinged.1]
  by_cases taken : (if mnb.lastPing.isDefault then (true, n) else mnb.lastPing.checkAndUpdate crypto ctx false n).1 = true
  · rw [if_pos taken, if_pos taken]
    have renewed := pinged.2.modify mnb.vin fun pmn => { pmn with lastPing := mnb.lastPing }
    exact renewed.withPings (renewed.pings.insertNew _ _)
  · rw [if_neg taken, if_neg taken]
    exact pinged.2

theorem updateFromNewBroadcast (pmn mnb : CMasternode) :
    Alike broadcasts pings (m.updateFromNewBroadcast crypto ctx pmn mnb) (n.updateFromNewBroadcast crypto ctx pmn mnb) := by
  unfold CMasternodeMan.updateFromNewBroadcast
  refine alike_ite (fun _ => ⟨rfl, ?_⟩) fun _ => agree.answer false
  exact Agree.takePing (agree.modify _ _) mnb

theorem updateAndCheck (pmn mnb : CMasternode) :
    Agree broadcasts pings (m.updateAndCheck crypto ctx pmn mnb) (n.updateAndCheck crypto ctx pmn mnb) := by
  have renewed : Alike broadcasts pings (m.updateFromNewBroadcast crypto ctx pmn mnb) (n.updateFromNewBroadcast crypto ctx pmn mnb) :=
    agree.updateFromNewBroadcast pmn mnb
  obtain ⟨same, updated⟩ := renewed
  unfold CMasternodeMan.updateAndCheck
  dsimp only
  rw [same]
  split
  · exact updated.modify _ _
  · exact updated

theorem checkAndUpdate (mnb : CMasternode) :
    Alike broadcasts pings (m.checkAndUpdate crypto ctx mnb) (n.checkAndUpdate crypto ctx mnb) := by
  unfold CMasternodeMan.checkAndUpdate
  rw [agree.checkSigTime, agree.find]
  iterate 8 refine alike_ite (fun _ => agree.answer false) fun _ => ?_
  cases n.find mnb.vin with
  | none => exact agree.answer true
  | some pmn =>
    refine alike_ite (fun _ => agree.answer false) fun _ => alike_ite (fun _ => agree.answer true) fun _ => ?_
    exact alike_ite (fun _ => ⟨rfl, agree.updateAndCheck pmn mnb⟩) fun _ => agree.answer true

theorem removeOld (vin : CTxIn) : Agree broadcasts pings (m.removeOld vin) (n.removeOld vin) := by
  unfold CMasternodeMan.removeOld
  rw [agree.find]
  cases n.find vin with
  | none => exact agree
  | some pmn => exact agree.remove pmn.vin

theorem checkInputsAndAdd (mnb : CMasternode) :
    Alike broadcasts pings (m.checkInputsAndAdd crypto ctx mnb) (n.checkInputsAndAdd crypto ctx mnb) := by
  unfold CMasternodeMan.checkInputsAndAdd
  rw [agree.checkSigTime, agree.find]
  iterate 3 refine alike_ite (fun _ => agree.answer none) fun _ => ?_
  have removed := agree.removeOld mnb.vin
  have forgotten := removed.withBroadcasts (removed.broadcasts.erase (mnb.getHash crypto))
  unfold CMasternodeMan.addUnspent
  refine alike_ite (fun _ => forgotten.answer none) fun _ => alike_ite (fun _ => removed.answer none) fun _ => ?_
  exact alike_ite (fun _ => forgotten.answer none) fun _ => alike_ite (fun _ => removed.answer none) fun _ => removed.add mnb

end

end Agree

variable {mnb : CMasternode} {op : Op} {k : uint256}

theorem checkAndUpdate_signed (valid : (m.checkAndUpdate crypto ctx mnb).1 = true) :
    mnb.checkSignature crypto = true := by
  unfold checkAndUpdate at valid
  iterate 6
    have passed := Checked.not_stopped valid
    rw [if_neg passed] at valid
    clear passed
  have signed := Checked.not_stopped valid
  simpa using signed

theorem checkAndUpdate_stops
    (bad : mnb.checkSignature crypto = false ∨ (mnb.lastPing.isDefault || !mnb.lastPing.checkSigTime crypto ctx m) = true) :
    m.checkAndUpdate crypto ctx mnb = (false, m) := by
  have skip : ∀ {c : Prop} [Decidable c] {rest : Bool × CMasternodeMan}, rest = (false, m) → (if c then (false, m) else rest) = (false, m) := by
    intro c _ rest same
    rw [same, ite_self]
  unfold checkAndUpdate
  refine skip ?_
  rcases bad with unsigned | ping
  · iterate 5 refine skip ?_
    exact if_pos (by simp [unsigned])
  · exact if_pos ping

theorem processBroadcast_unsigned (ctx : MasternodeManContext) (m : CMasternodeMan)
    (unsigned : mnb.checkSignature crypto = false) :
    ∃ seen, m.processBroadcast crypto ctx mnb = (none, { m with mapSeenMasternodeBroadcast := seen }) ∧
      ∀ k, k ≠ mnb.getHash crypto → seen.lookup k = m.mapSeenMasternodeBroadcast.lookup k := by
  unfold processBroadcast
  by_cases known : (m.mapSeenMasternodeBroadcast.lookup (mnb.getHash crypto)).isSome = true
  · rw [if_pos known]
    exact ⟨_, rfl, fun _ _ => rfl⟩
  · rw [if_neg known]
    dsimp only
    rw [checkAndUpdate_stops (Or.inl unsigned)]
    exact ⟨_, rfl, fun k other => by rw [lookup_insert_ite, if_neg other]⟩

theorem ping_unsigned {p : CMasternodePing} (ctx : MasternodeManContext) (m : CMasternodeMan) (fRequireEnabled : Bool)
    (unsigned : ((m.find p.vin).any fun pmn => crypto.checkPing pmn.pubKeyMasternode p) = false) :
    p.checkAndUpdate crypto ctx fRequireEnabled m = (false, m) := by
  have skip : ∀ {c : Prop} [Decidable c] {rest : Bool × CMasternodeMan}, rest = (false, m) → (if c then (false, m) else rest) = (false, m) := by
    intro c _ rest same
    rw [same, ite_self]
  unfold CMasternodePing.checkAndUpdate
  refine skip (skip ?_)
  cases found : m.find p.vin with
  | none => rfl
  | some pmn =>
    rw [found, Option.any_some] at unsigned
    iterate 3 refine skip ?_
    exact if_pos (by simp [unsigned])

theorem processPing_unsigned (ctx : MasternodeManContext) (m : CMasternodeMan)
    (unsigned : ((m.find mnp.vin).any fun pmn => crypto.checkPing pmn.pubKeyMasternode mnp) = false) :
    ∃ seen, m.processPing crypto ctx mnp = { m with mapSeenMasternodePing := seen } ∧
      ∀ k, k ≠ mnp.getHash crypto → seen.lookup k = m.mapSeenMasternodePing.lookup k := by
  unfold processPing
  by_cases known : (m.mapSeenMasternodePing.lookup (mnp.getHash crypto)).isSome = true
  · rw [if_pos known]
    exact ⟨_, rfl, fun _ _ => rfl⟩
  · have same := ping_unsigned ctx { m with mapSeenMasternodePing := m.mapSeenMasternodePing.insert (mnp.getHash crypto) mnp } true unsigned
    rw [if_neg known]
    dsimp only
    rw [same]
    exact ⟨_, rfl, fun k other => by rw [lookup_insert_ite, if_neg other]⟩

namespace Agree

theorem processBroadcast (agree : Agree broadcasts pings m n) (mnb : CMasternode)
    (unsigned : broadcasts (mnb.getHash crypto) → mnb.checkSignature crypto = false) :
    Alike broadcasts pings (m.processBroadcast crypto ctx mnb) (n.processBroadcast crypto ctx mnb) := by
  by_cases hidden : broadcasts (mnb.getHash crypto)
  · obtain ⟨seen, done, others⟩ := processBroadcast_unsigned ctx m (unsigned hidden)
    obtain ⟨seen', done', others'⟩ := processBroadcast_unsigned ctx n (unsigned hidden)
    rw [done, done']
    refine ⟨rfl, agree.withBroadcasts fun k shown => ?_⟩
    have other : k ≠ mnb.getHash crypto := fun same => shown (same ▸ hidden)
    rw [others k other, others' k other, agree.broadcasts k shown]
  · unfold CMasternodeMan.processBroadcast
    rw [agree.broadcasts _ hidden]
    refine alike_ite (fun _ => agree.answer none) fun _ => ?_
    have remembered := agree.withBroadcasts (agree.broadcasts.insert (mnb.getHash crypto) mnb)
    have checked : Alike broadcasts pings (CMasternodeMan.checkAndUpdate crypto ctx _ mnb) (CMasternodeMan.checkAndUpdate crypto ctx _ mnb) :=
      remembered.checkAndUpdate mnb
    obtain ⟨same, updated⟩ := checked
    dsimp only
    rw [same]
    exact alike_ite (fun _ => updated.answer none) fun _ => alike_ite (fun _ => updated.answer none) fun _ => updated.checkInputsAndAdd mnb

theorem processPing (agree : Agree broadcasts pings m n) (mnp : CMasternodePing)
    (unsigned : pings (mnp.getHash crypto) → ∀ key, crypto.checkPing key mnp = false) :
    Agree broadcasts pings (m.processPing crypto ctx mnp) (n.processPing crypto ctx mnp) := by
  by_cases hidden : pings (mnp.getHash crypto)
  · have nobody : ∀ l : CMasternodeMan, ((l.find mnp.vin).any fun pmn => crypto.checkPing pmn.pubKeyMasternode mnp) = false := by
      intro l
      cases l.find mnp.vin with
      | none => rfl
      | some pmn => exact unsigned hidden pmn.pubKeyMasternode
    obtain ⟨seen, done, others⟩ := processPing_unsigned ctx m (nobody m)
    obtain ⟨seen', done', others'⟩ := processPing_unsigned ctx n (nobody n)
    rw [done, done']
    refine agree.withPings fun k shown => ?_
    have other : k ≠ mnp.getHash crypto := fun same => shown (same ▸ hidden)
    rw [others k other, others' k other, agree.pings k shown]
  · unfold CMasternodeMan.processPing
    rw [agree.pings _ hidden]
    split
    · exact agree
    · exact (Agree.ping (agree.withPings (agree.pings.insert _ _)) true mnp).2

theorem sendEntries (vin : CTxIn) (l : List CMasternode) {seen : StdMap uint256 CMasternode}
    (same : AgreeOff broadcasts seen seen') :
    AgreeOff broadcasts (CMasternodeMan.sendEntries crypto ctx vin l seen) (CMasternodeMan.sendEntries crypto ctx vin l seen') := by
  induction l generalizing seen seen' with
  | nil => exact same
  | cons mn rest ih =>
    unfold CMasternodeMan.sendEntries
    dsimp only
    split
    · exact ih same
    · split
      · split
        · exact same.insertNew _ _
        · exact ih (same.insertNew _ _)
      · exact ih same

section

variable (agree : Agree broadcasts pings m n)

include agree

theorem checkAll : Agree broadcasts pings (m.checkAll crypto ctx) (n.checkAll crypto ctx) := by
  refine ⟨?_, agree.broadcasts, agree.pings⟩
  unfold CMasternodeMan.checkAll
  rw [agree.list]

theorem checkAndRemove (forceExpiredRemoval : Bool) :
    Agree broadcasts pings (m.checkAndRemove crypto ctx forceExpiredRemoval) (n.checkAndRemove crypto ctx forceExpiredRemoval) := by
  have checked : Agree broadcasts pings (m.checkAll crypto ctx) (n.checkAll crypto ctx) := agree.checkAll
  unfold CMasternodeMan.checkAndRemove
  dsimp only
  rw [checked.list]
  exact ⟨rfl, checked.broadcasts.filter _, checked.pings.filter _⟩

theorem updateMasternodeList (mnb : CMasternode) :
    Alike broadcasts pings (m.updateMasternodeList crypto ctx mnb) (n.updateMasternodeList crypto ctx mnb) := by
  have remembered := (agree.withPings (agree.pings.insertNew (mnb.lastPing.getHash crypto) mnb.lastPing)).withBroadcasts
    (agree.broadcasts.insertNew (mnb.getHash crypto) mnb)
  unfold CMasternodeMan.updateMasternodeList
  dsimp only
  rw [remembered.find]
  generalize CMasternodeMan.find _ mnb.vin = found
  cases found with
  | none => exact remembered.add mnb
  | some pmn => exact ⟨rfl, (remembered.updateFromNewBroadcast pmn mnb).2⟩

theorem step (unsignedBroadcasts : ∀ mnb : CMasternode, broadcasts (mnb.getHash crypto) → mnb.checkSignature crypto = false)
    (unsignedPings : ∀ mnp : CMasternodePing, pings (mnp.getHash crypto) → ∀ key, crypto.checkPing key mnp = false)
    (d : MasternodeManContext × Op) : Alike broadcasts pings (m.step crypto d) (n.step crypto d) := by
  obtain ⟨ctx, op⟩ := d
  unfold CMasternodeMan.step
  cases op with
  | mnb mnb =>
    exact alike_ite (fun _ => agree.answer none) fun _ => agree.processBroadcast _ (unsignedBroadcasts { mnb with activeState := .enabled })
  | mnp mnp =>
    dsimp only
    split
    · exact agree.answer none
    · exact ⟨rfl, agree.processPing mnp (unsignedPings mnp)⟩
  | dseg vin =>
    dsimp only
    split
    · exact agree.answer none
    · unfold CMasternodeMan.processDseg
      rw [agree.list]
      split
      · exact agree.answer none
      · exact ⟨rfl, rfl, sendEntries vin _ agree.broadcasts, agree.pings⟩
  | check => exact ⟨rfl, agree.checkAll⟩
  | checkAndRemove forceExpiredRemoval => exact ⟨rfl, agree.checkAndRemove forceExpiredRemoval⟩
  | remove vin => exact ⟨rfl, agree.remove vin⟩
  | updateMasternodeList mnb => exact agree.updateMasternodeList mnb
  | clear => exact ⟨rfl, refl _⟩

theorem runFrom (unsignedBroadcasts : ∀ mnb : CMasternode, broadcasts (mnb.getHash crypto) → mnb.checkSignature crypto = false)
    (unsignedPings : ∀ mnp : CMasternodePing, pings (mnp.getHash crypto) → ∀ key, crypto.checkPing key mnp = false)
    (ops : List (MasternodeManContext × Op)) : Agree broadcasts pings (runFrom crypto m ops) (runFrom crypto n ops) := by
  induction ops generalizing m n with
  | nil => exact agree
  | cons d rest ih => exact ih (agree.step unsignedBroadcasts unsignedPings d).2

end

end Agree

theorem step_stopped (stopped : Stopped crypto ctx m op) : m.step crypto (ctx, op) = (none, m) := by
  cases op with
  | mnb mnb =>
    rcases stopped with ignored | known
    · exact if_pos ignored
    · unfold step
      dsimp only
      split
      · rfl
      · exact if_pos known
  | mnp mnp =>
    rcases stopped with ignored | known
    · exact congrArg (Prod.mk none) (if_pos ignored)
    · unfold step
      dsimp only
      split
      · rfl
      · exact congrArg (Prod.mk none) (if_pos known)
  | _ => exact stopped.elim

theorem effect_eq (agree : Agree broadcasts pings m n)
    (alike : Agree broadcasts pings m n → Alike broadcasts pings (m.step crypto d) (n.step crypto d)) :
    effect crypto m d = effect crypto n d :=
  Prod.ext (alike agree).1 (alike agree).2.list

theorem no_trace_of_agree (broadcasts pings : uint256 → Prop) (agree : Agree broadcasts pings (m.step crypto d).2 m)
    (unsignedBroadcasts : ∀ mnb : CMasternode, broadcasts (mnb.getHash crypto) → mnb.checkSignature crypto = false)
    (unsignedPings : ∀ mnp : CMasternodePing, pings (mnp.getHash crypto) → ∀ key, crypto.checkPing key mnp = false) :
    LeavesNoTrace crypto m d := by
  refine ⟨agree.list, fun between later _ => ?_⟩
  have after := agree.runFrom unsignedBroadcasts unsignedPings between
  exact effect_eq after fun agree => agree.step unsignedBroadcasts unsignedPings later

theorem leavesNoTrace_stopped (stopped : Stopped crypto ctx m op) : LeavesNoTrace crypto m (ctx, op) := by
  rw [LeavesNoTrace, step_stopped stopped]
  exact ⟨rfl, fun _ _ _ => rfl⟩

theorem leavesNoTrace_unsignable (message : (∃ mnb, op = .mnb mnb) ∨ ∃ mnp, op = .mnp mnp)
    (unsignable : ¬Signable crypto op) : LeavesNoTrace crypto m (ctx, op) := by
  rcases message with ⟨mnb, rfl⟩ | ⟨mnp, rfl⟩
  · have nobody : ∀ rival : CMasternode, rival.getHash crypto = mnb.getHash crypto → rival.checkSignature crypto = false := by
      intro rival same
      by_contra signed
      exact unsignable ⟨rival, same, by simpa using signed⟩
    obtain ⟨seen, done, others⟩ := processBroadcast_unsigned ctx m (nobody { mnb with activeState := .enabled } rfl)
    refine no_trace_of_agree (fun k => k = mnb.getHash crypto) (fun _ => False) ?_ nobody fun _ impossible => impossible.elim
    unfold step
    dsimp only
    split
    · exact .refl m
    · rw [done]
      exact ⟨rfl, others, fun _ _ => rfl⟩
  · have nobody : ∀ rival : CMasternodePing, rival.getHash crypto = mnp.getHash crypto → ∀ key, crypto.checkPing key rival = false := by
      intro rival same key
      by_contra signed
      exact unsignable ⟨rival, key, same, by simpa using signed⟩
    have here : ((m.find mnp.vin).any fun pmn => crypto.checkPing pmn.pubKeyMasternode mnp) = false := by
      cases m.find mnp.vin with
      | none => rfl
      | some pmn => exact nobody mnp rfl pmn.pubKeyMasternode
    obtain ⟨seen, done, others⟩ := processPing_unsigned ctx m here
    refine no_trace_of_agree (fun _ => False) (fun k => k = mnp.getHash crypto) ?_ (fun _ impossible => impossible.elim) nobody
    unfold step
    dsimp only
    split
    · exact .refl m
    · rw [done]
      exact ⟨rfl, fun _ _ => rfl, others⟩

theorem ping_remembers (p : CMasternodePing) (fRequireEnabled : Bool)
    (known : (m.mapSeenMasternodeBroadcast.lookup k).isSome = true) :
    ((p.checkAndUpdate crypto ctx fRequireEnabled m).2.mapSeenMasternodeBroadcast.lookup k).isSome = true := by
  unfold CMasternodePing.checkAndUpdate
  have keep : ∀ {c : Prop} [Decidable c] {rest : Bool × CMasternodeMan}, (rest.2.mapSeenMasternodeBroadcast.lookup k).isSome = true →
      ((if c then (false, m) else rest).2.mapSeenMasternodeBroadcast.lookup k).isSome = true := by
    intro c _ rest later
    split
    · exact known
    · exact later
  refine keep (keep ?_)
  cases m.find p.vin with
  | none => exact known
  | some pmn =>
    iterate 5 refine keep ?_
    dsimp only [modify]
    cases m.mapSeenMasternodeBroadcast.lookup (CMasternode.getHash crypto { pmn with lastPing := p }) with
    | none => exact known
    | some mnb =>
      dsimp only
      rw [lookup_insert_ite]
      split
      · rfl
      · exact known

theorem takePing_remembers (mnb : CMasternode)
    (known : (m.mapSeenMasternodeBroadcast.lookup k).isSome = true) :
    ((m.takePing crypto ctx mnb).mapSeenMasternodeBroadcast.lookup k).isSome = true := by
  have pinged : ((if mnb.lastPing.isDefault then (true, m) else mnb.lastPing.checkAndUpdate crypto ctx false m).2.mapSeenMasternodeBroadcast.lookup
      k).isSome = true := by
    split
    · exact known
    · exact ping_remembers mnb.lastPing false known
  unfold takePing
  generalize (if mnb.lastPing.isDefault then (true, m) else mnb.lastPing.checkAndUpdate crypto ctx false m) = result at pinged ⊢
  dsimp only
  split
  · exact pinged
  · exact pinged

theorem checkAndUpdate_remembers (mnb : CMasternode)
    (known : (m.mapSeenMasternodeBroadcast.lookup k).isSome = true) :
    ((m.checkAndUpdate crypto ctx mnb).2.mapSeenMasternodeBroadcast.lookup k).isSome = true := by
  have keep : ∀ {c : Prop} [Decidable c] {b : Bool} {rest : Bool × CMasternodeMan}, (rest.2.mapSeenMasternodeBroadcast.lookup k).isSome = true →
      ((if c then (b, m) else rest).2.mapSeenMasternodeBroadcast.lookup k).isSome = true := by
    intro c _ b rest later
    split
    · exact known
    · exact later
  unfold checkAndUpdate
  iterate 8 refine keep ?_
  cases m.find mnb.vin with
  | none => exact known
  | some pmn =>
    refine keep (keep ?_)
    split
    · unfold updateAndCheck updateFromNewBroadcast
      by_cases newer : mnb.sigTime > pmn.sigTime
      · rw [if_pos newer]
        exact takePing_remembers mnb known
      · rw [if_neg newer]
        exact known
    · exact known

theorem remember_self (m : CMasternodeMan) (mnb : CMasternode) :
    ((m.remember crypto mnb).mapSeenMasternodeBroadcast.lookup (mnb.getHash crypto)).isSome = true := by
  rw [remember, lookup_insert_ite, if_pos rfl]
  rfl

theorem processBroadcast_fresh (fresh : m.mapSeenMasternodeBroadcast.lookup (mnb.getHash crypto) = none) :
    m.processBroadcast crypto ctx mnb =
      if !((m.remember crypto mnb).checkAndUpdate crypto ctx mnb).1 then (none, ((m.remember crypto mnb).checkAndUpdate crypto ctx mnb).2)
      else if !mnb.isInputAssociatedWithPubkey crypto ctx then (none, ((m.remember crypto mnb).checkAndUpdate crypto ctx mnb).2)
      else ((m.remember crypto mnb).checkAndUpdate crypto ctx mnb).2.checkInputsAndAdd crypto ctx mnb :=
  if_neg (by simp [fresh])

theorem processBroadcast_refused (fresh : m.mapSeenMasternodeBroadcast.lookup (mnb.getHash crypto) = none)
    (refused : Refused crypto ctx m (.mnb mnb)) :
    ((m.processBroadcast crypto ctx (received mnb)).2.mapSeenMasternodeBroadcast.lookup (mnb.getHash crypto)).isSome = true := by
  have same : (received mnb).getHash crypto = mnb.getHash crypto := rfl
  have signature : (received mnb).checkSignature crypto = mnb.checkSignature crypto := rfl
  have lastPing : (received mnb).lastPing = mnb.lastPing := rfl
  have collateral : (received mnb).isInputAssociatedWithPubkey crypto ctx = mnb.isInputAssociatedWithPubkey crypto ctx := rfl
  unfold Refused at refused
  dsimp only at refused
  rw [← signature, ← lastPing, ← collateral] at refused
  rw [← same] at fresh ⊢
  clear same signature lastPing collateral
  generalize received mnb = mnb at fresh refused ⊢
  have updated : (((m.remember crypto mnb).checkAndUpdate crypto ctx mnb).2.mapSeenMasternodeBroadcast.lookup (mnb.getHash crypto)).isSome = true :=
    checkAndUpdate_remembers mnb (remember_self m mnb)
  rw [processBroadcast_fresh fresh]
  rcases refused with unsigned | ping | unrelated
  · rw [checkAndUpdate_stops (Or.inl unsigned)]
    exact remember_self m mnb
  · have stops : (m.remember crypto mnb).checkAndUpdate crypto ctx mnb = (false, m.remember crypto mnb) := checkAndUpdate_stops (Or.inr ping)
    rw [stops]
    exact remember_self m mnb
  · split
    · exact updated
    · rw [if_pos (by simp [unrelated])]
      exact updated

theorem processBroadcast_accepted (accepted : Accepted crypto ctx m mnb) :
    ((m.processBroadcast crypto ctx (received mnb)).2.mapSeenMasternodeBroadcast.lookup (mnb.getHash crypto)).isSome = true := by
  obtain ⟨fresh, -, inputs⟩ := accepted
  have same : (received mnb).getHash crypto = mnb.getHash crypto := rfl
  rw [← same] at fresh ⊢
  clear same
  generalize received mnb = mnb at fresh inputs ⊢
  have updated : (((m.remember crypto mnb).checkAndUpdate crypto ctx mnb).2.mapSeenMasternodeBroadcast.lookup (mnb.getHash crypto)).isSome = true :=
    checkAndUpdate_remembers mnb (remember_self m mnb)
  rw [processBroadcast_fresh fresh]
  generalize (m.remember crypto mnb).checkAndUpdate crypto ctx mnb = checked at updated inputs ⊢
  split
  · exact updated
  split
  · exact updated
  unfold acceptsInputs at inputs
  unfold checkInputsAndAdd
  split
  · exact updated
  next foreign =>
    rw [if_neg foreign] at inputs
    split
    · exact updated
    next ping =>
      rw [if_neg ping] at inputs
      split
      · exact updated
      next off =>
        rw [if_neg off] at inputs
        have removed : ((checked.2.removeOld mnb.vin).mapSeenMasternodeBroadcast.lookup (mnb.getHash crypto)).isSome = true := by
          unfold removeOld
          split
          · exact updated
          · exact updated
        simp only [Bool.and_eq_true, Bool.not_eq_true', decide_eq_false_iff_not] at inputs
        obtain ⟨⟨⟨lock, acceptable⟩, age⟩, later⟩ := inputs
        unfold addUnspent
        rw [if_neg (by simp [lock]), if_neg (by simp [acceptable]), if_neg age, if_neg (by simp [later])]
        unfold add
        split
        · exact removed
        split
        · exact removed
        · exact removed

theorem exists_unlisted (l : List COutPoint) : ∃ o, o ∉ l := by
  have infinite : Infinite COutPoint := Infinite.of_injective (fun n : Nat => (⟨0, n⟩ : COutPoint)) fun _ _ same => congrArg COutPoint.n same
  obtain ⟨o, absent⟩ := Infinite.exists_notMem_finset l.toFinset
  exact ⟨o, by simpa using absent⟩

theorem find_unlisted (absent : o ∉ m.prevouts) : m.find { prevout := o } = none := by
  refine List.find?_eq_none.mpr fun mn listed => ?_
  have other : mn.vin.prevout ≠ o := fun same => absent (same ▸ List.mem_map_of_mem listed)
  simpa using other

def rivalAt (mnb : CMasternode) (v w : COutPoint) : CMasternode :=
  { mnb with
    vin := { prevout := v }
    activeState := .enabled
    lastPing := { vin := { prevout := w }, blockHash := 1, sigTime := mnb.sigTime + 300 } }

def rivalContext (crypto : MasternodeCrypto) (mnb : CMasternode) : MasternodeManContext :=
  { doubleContext with
    chain := { doubleContext.chain with network := if mnb.addr.port = 9070 then .main else .regtest }
    getAdjustedTime := mnb.sigTime + 300
    minProto := mnb.protocolVersion
    checkedRecently := fun _ => true
    getTransaction := fun _ =>
      some ({ hash := 0, vin := [], vout := [{ nValue := doubleContext.collateral, scriptPubKey := mnb.payee crypto }] }, 0) }

theorem length_getScriptForDestination (key : CKeyID) : (getScriptForDestination key).length = 25 := by
  simp [getScriptForDestination, CScript.pushData, key.size]

theorem rival_associated (mnb : CMasternode) (v w : COutPoint) :
    (rivalAt mnb v w).isInputAssociatedWithPubkey crypto (rivalContext crypto mnb) = true := by
  have collateral : (rivalContext crypto mnb).collateral = doubleContext.collateral := rfl
  unfold CMasternode.isInputAssociatedWithPubkey
  rw [collateral]
  simp [rivalContext, rivalAt, CMasternode.payee]

theorem rival_ping (unlisted : m.find { prevout := w } = none) :
    ((rivalAt mnb v w).lastPing.isDefault || !(rivalAt mnb v w).lastPing.checkSigTime crypto (rivalContext crypto mnb) m) = false := by
  simp [rivalAt, rivalContext, CMasternodePing.isDefault, CMasternodePing.checkSigTime, unlisted]

theorem checkAndUpdate_rival (signed : mnb.checkSignature crypto = true) (unlisted : m.find { prevout := w } = none) :
    m.checkAndUpdate crypto (rivalContext crypto mnb) (rivalAt mnb v w) =
      match m.find { prevout := v } with
      | none => (true, m)
      | some pmn =>
        if pmn.sigTime ≥ mnb.sigTime then (false, m)
        else if !pmn.isEnabled then (true, m)
        else if pmn.pubKeyCollateralAddress = mnb.pubKeyCollateralAddress ∧
            !pmn.isBroadcastedWithin (rivalContext crypto mnb) MASTERNODE_MIN_MNB_SECONDS then
          (true, m.updateAndCheck crypto (rivalContext crypto mnb) pmn (rivalAt mnb v w))
        else (true, m) := by
  have time : ¬(rivalAt mnb v w).sigTime > (rivalContext crypto mnb).getAdjustedTime + 60 * 60 := by
    show ¬mnb.sigTime > mnb.sigTime + 300 + 60 * 60
    omega
  have proto : ¬(rivalAt mnb v w).protocolVersion < (rivalContext crypto mnb).minProto := lt_irrefl mnb.protocolVersion
  have port : ¬wrongPort (rivalContext crypto mnb) (rivalAt mnb v w) = true := by
    unfold wrongPort rivalContext rivalAt
    by_cases main : mnb.addr.port = 9070
    · simp [main]
    · simp [main]
  unfold checkAndUpdate
  rw [if_neg time, if_neg (by rw [rival_ping unlisted]; exact Bool.false_ne_true), if_neg proto,
    if_neg (fun wrong => wrong (length_getScriptForDestination _)), if_neg (fun wrong => wrong (length_getScriptForDestination _)),
    if_neg (by simp [rivalAt]), if_neg (by rw [show (rivalAt mnb v w).checkSignature crypto = true from signed]; exact Bool.false_ne_true), if_neg port]
  rfl

theorem step_mnb (heard : ignores ctx = false) (mnb : CMasternode) :
    m.step crypto (ctx, .mnb mnb) = m.processBroadcast crypto ctx (received mnb) :=
  if_neg (by simp [heard])

theorem accepted_hides (accepted : Accepted crypto ctx m mnb) : ¬HidesNoOther crypto ctx m mnb := by
  intro hides
  obtain ⟨fresh, ⟨heard, checked, _⟩, _⟩ := id accepted
  obtain ⟨v, new⟩ := exists_unlisted (mnb.vin.prevout :: m.prevouts)
  obtain ⟨w, unlisted⟩ := exists_unlisted m.prevouts
  rw [List.mem_cons, not_or] at new
  have signed : mnb.checkSignature crypto = true := checkAndUpdate_signed checked
  have valid : Valid crypto (rivalContext crypto mnb) m (.mnb (rivalAt mnb v w)) := by
    refine ⟨rfl, ?_, rival_associated mnb v w⟩
    have passes := checkAndUpdate_rival (v := v) signed (find_unlisted unlisted)
    rw [find_unlisted new.2] at passes
    exact congrArg Prod.fst passes
  have hidden := hides [] _ _ new.1 valid fresh
  have known := processBroadcast_accepted accepted
  have same : (rivalAt mnb v w).getHash crypto = mnb.getHash crypto := rfl
  rw [runFrom, List.foldl_nil, step_mnb heard, same] at hidden
  rw [hidden] at known
  cases known

def cleaningContext (oldest minProto : Int) : MasternodeManContext :=
  { doubleContext with
    getTime := oldest + MASTERNODE_REMOVAL_SECONDS * 2
    minProto
    checkedRecently := fun _ => true }

def removals (l : List CMasternode) : List (MasternodeManContext × Op) := l.map fun mn => (doubleContext, .remove mn.vin)

/-- The entries of a list are taken out, an entry of the node's own comes in, and what is older than a time is forgotten. -/
def replaceList (l : List CMasternode) (entry : CMasternode) (oldest : Int) : List (MasternodeManContext × Op) :=
  removals l ++ [(doubleContext, .updateMasternodeList entry), (cleaningContext oldest entry.protocolVersion, .checkAndRemove false)]

theorem runFrom_removals (m : CMasternodeMan) : runFrom crypto m (removals m.vMasternodes) = { m with vMasternodes := [] } := by
  obtain ⟨l, seen, pinged⟩ := m
  induction l with
  | nil => rfl
  | cons mn rest ih =>
    have removed : (step crypto ⟨mn :: rest, seen, pinged⟩ (doubleContext, .remove mn.vin)).2 = ⟨rest, seen, pinged⟩ := by
      simp [step, remove]
    show runFrom crypto (step crypto ⟨mn :: rest, seen, pinged⟩ (doubleContext, .remove mn.vin)).2 (removals rest) = _
    rw [removed]
    exact ih

theorem check_recent (mn : CMasternode) : mn.check crypto (cleaningContext oldest minProto) false = mn := by
  simp [CMasternode.check, cleaningContext, doubleContext]

theorem runFrom_replaceList (m : CMasternodeMan) {entry : CMasternode} (enabled : entry.activeState = .enabled) (oldest : Int) :
    runFrom crypto m (replaceList m.vMasternodes entry oldest) =
      { vMasternodes := [entry]
        mapSeenMasternodeBroadcast := StdMap.filter (fun _ mnb => !decide (mnb.lastPing.sigTime < oldest))
          (insertNew m.mapSeenMasternodeBroadcast (entry.getHash crypto) entry)
        mapSeenMasternodePing := StdMap.filter (fun _ mnp => !decide (mnp.sigTime < oldest))
          (insertNew m.mapSeenMasternodePing (entry.lastPing.getHash crypto) entry.lastPing) } := by
  have cleared : runFrom crypto m (removals m.vMasternodes) = { m with vMasternodes := [] } := runFrom_removals m
  unfold runFrom at cleared ⊢
  rw [replaceList, List.foldl_append, cleared, List.foldl_cons, List.foldl_cons, List.foldl_nil]
  have stays : removable (cleaningContext oldest entry.protocolVersion) false entry = false := by
    simp [removable, cleaningContext, enabled]
  have time : (cleaningContext oldest entry.protocolVersion).getTime - MASTERNODE_REMOVAL_SECONDS * 2 = oldest := by
    show oldest + MASTERNODE_REMOVAL_SECONDS * 2 - MASTERNODE_REMOVAL_SECONDS * 2 = oldest
    omega
  have entered : (step crypto { m with vMasternodes := [] } (doubleContext, .updateMasternodeList entry)).2 =
      { vMasternodes := [entry]
        mapSeenMasternodeBroadcast := insertNew m.mapSeenMasternodeBroadcast (entry.getHash crypto) entry
        mapSeenMasternodePing := insertNew m.mapSeenMasternodePing (entry.lastPing.getHash crypto) entry.lastPing } := by
    simp [step, updateMasternodeList, find, add, CMasternode.isEnabled, enabled]
  rw [entered]
  unfold step checkAndRemove checkAll
  simp only [List.map_cons, List.map_nil, check_recent, List.filter_cons, stays, List.filter_nil, time, Bool.not_false, if_true,
    Bool.false_eq_true, if_false, List.any_nil, Bool.true_and]

theorem find_single (single : m.vMasternodes = [mn]) (vin : CTxIn) :
    m.find vin = if mn.vin.prevout = vin.prevout then some mn else none := by
  rw [find, single, List.find?_singleton]
  simp only [beq_iff_eq]

theorem modify_single (single : m.vMasternodes = [mn]) (same : mn.vin.prevout = vin.prevout) :
    (m.modify vin change).vMasternodes = [change mn] := by
  simp [modify, single, same]

variable (entry : CMasternode) (mnp : CMasternodePing)

theorem updateAndCheck_single (mnb : CMasternode) (single : m.vMasternodes = [entry])
    (same : entry.vin.prevout = mnb.vin.prevout) (newer : mnb.sigTime > entry.sigTime) (named : mnb.lastPing.isDefault = false)
    (unlisted : entry.vin.prevout ≠ mnb.lastPing.vin.prevout) (recent : ∀ mn, CMasternode.check crypto ctx false mn = mn) :
    ∃ renewed, (m.updateAndCheck crypto ctx entry mnb).vMasternodes = [renewed] ∧ renewed.sigTime = mnb.sigTime ∧ renewed.vin = entry.vin ∧
      renewed.activeState = entry.activeState := by
  unfold updateAndCheck updateFromNewBroadcast
  rw [if_pos newer]
  dsimp only
  generalize changed : (fun pmn : CMasternode =>
    { pmn with
      pubKeyMasternode := mnb.pubKeyMasternode
      pubKeyCollateralAddress := mnb.pubKeyCollateralAddress
      sigTime := mnb.sigTime
      vchSig := mnb.vchSig
      protocolVersion := mnb.protocolVersion
      addr := mnb.addr }) = change
  have list : (m.modify mnb.vin change).vMasternodes = [change entry] := modify_single single same
  have vin : (change entry).vin = entry.vin := by rw [← changed]
  have time : (change entry).sigTime = mnb.sigTime := by rw [← changed]
  have state : (change entry).activeState = entry.activeState := by rw [← changed]
  -- The ping is of a masternode that is not listed, so it is not taken over.
  have absent : (m.modify mnb.vin change).find mnb.lastPing.vin = none := by
    rw [find_single list, vin]
    exact if_neg unlisted
  have kept : (m.modify mnb.vin change).takePing crypto ctx mnb = m.modify mnb.vin change := by
    unfold takePing
    rw [named, if_neg Bool.false_ne_true, ping_unsigned _ _ _ (by rw [absent]; rfl)]
    rfl
  refine ⟨change entry, ?_, time, vin, state⟩
  rw [kept, if_pos rfl, modify_single list (by rw [vin]; exact same), recent]

def Overtakes (crypto : MasternodeCrypto) (entry : CMasternode) (later : MasternodeManContext × Op) : Prop :=
  ∀ n : CMasternodeMan, n.vMasternodes = [entry] → ¬Stopped crypto later.1 n later.2 →
    Valid crypto later.1 n later.2 ∧ (n.step crypto later).2.vMasternodes ≠ [entry]

theorem exists_later_mnb {rival : CMasternode} (signed : rival.checkSignature crypto = true) (pinged : Int) :
    ∃ entry mnb ctx', entry.activeState = .enabled ∧ entry.lastPing.sigTime = pinged ∧ mnb.getHash crypto = rival.getHash crypto ∧
      ignores ctx' = false ∧ Overtakes crypto entry (ctx', .mnb mnb) := by
  refine ⟨{ rivalAt rival ⟨0, 0⟩ ⟨0, 1⟩ with sigTime := rival.sigTime - 1, lastPing := { sigTime := pinged } }, rivalAt rival ⟨0, 0⟩ ⟨0, 1⟩,
    rivalContext crypto rival, rfl, rfl, rfl, rfl, ?_⟩
  generalize made : ({ rivalAt rival ⟨0, 0⟩ ⟨0, 1⟩ with sigTime := rival.sigTime - 1, lastPing := { sigTime := pinged } } : CMasternode) = entry
  have vin : entry.vin = { prevout := ⟨0, 0⟩ } := by rw [← made]; rfl
  have time : entry.sigTime = rival.sigTime - 1 := by rw [← made]
  have enabled : entry.activeState = .enabled := by rw [← made]; rfl
  have key : entry.pubKeyCollateralAddress = rival.pubKeyCollateralAddress := by rw [← made]; rfl
  clear made
  intro n single fresh
  have listed : ∀ (l : CMasternodeMan) mn, l.vMasternodes = [mn] → mn.vin = entry.vin → l.find { prevout := ⟨0, 1⟩ } = none := by
    intro l mn list same
    rw [find_single list, same, vin]
    exact if_neg (by decide)
  have found : ∀ (l : CMasternodeMan) mn, l.vMasternodes = [mn] → mn.vin = entry.vin → l.find { prevout := ⟨0, 0⟩ } = some mn := by
    intro l mn list same
    rw [find_single list, same, vin]
    exact if_pos rfl
  have checked : ∀ l : CMasternodeMan, l.vMasternodes = [entry] →
      l.checkAndUpdate crypto (rivalContext crypto rival) (rivalAt rival ⟨0, 0⟩ ⟨0, 1⟩) =
        (true, l.updateAndCheck crypto (rivalContext crypto rival) entry (rivalAt rival ⟨0, 0⟩ ⟨0, 1⟩)) := by
    intro l list
    have older : ¬entry.sigTime ≥ rival.sigTime := by omega
    have long : entry.isBroadcastedWithin (rivalContext crypto rival) MASTERNODE_MIN_MNB_SECONDS = false := by
      unfold CMasternode.isBroadcastedWithin
      refine decide_eq_false ?_
      show ¬rival.sigTime + 300 - entry.sigTime < 300
      omega
    rw [checkAndUpdate_rival signed (listed l entry list rfl), found l entry list rfl]
    dsimp only
    rw [if_neg older, if_neg (by simp [CMasternode.isEnabled, enabled]), if_pos ⟨key, by rw [long]; rfl⟩]
  have unknown : n.mapSeenMasternodeBroadcast.lookup ((rivalAt rival ⟨0, 0⟩ ⟨0, 1⟩).getHash crypto) = none := by
    by_contra known
    exact fresh (Or.inr (Option.isSome_iff_ne_none.mpr known))
  have associated : (rivalAt rival ⟨0, 0⟩ ⟨0, 1⟩).isInputAssociatedWithPubkey crypto (rivalContext crypto rival) = true := rival_associated _ _ _
  refine ⟨⟨rfl, congrArg Prod.fst (checked n single), associated⟩, ?_⟩
  have named : (rivalAt rival ⟨0, 0⟩ ⟨0, 1⟩).lastPing.isDefault = false := by simp [rivalAt, CMasternodePing.isDefault]
  obtain ⟨renewed, list, newer, same, state⟩ := updateAndCheck_single (m := n.remember crypto (rivalAt rival ⟨0, 0⟩ ⟨0, 1⟩)) entry
    (rivalAt rival ⟨0, 0⟩ ⟨0, 1⟩) single (congrArg CTxIn.prevout vin) (by rw [time]; exact Int.sub_lt_self _ (by decide)) named
    (by rw [vin]; exact (by decide : (⟨0, 0⟩ : COutPoint) ≠ ⟨0, 1⟩))
    (by intro mn; simp [CMasternode.check, rivalContext, doubleContext] : ∀ mn, CMasternode.check crypto (rivalContext crypto rival) false mn = mn)
  have passed : n.step crypto (rivalContext crypto rival, .mnb (rivalAt rival ⟨0, 0⟩ ⟨0, 1⟩)) =
      n.processBroadcast crypto (rivalContext crypto rival) (rivalAt rival ⟨0, 0⟩ ⟨0, 1⟩) := step_mnb rfl _
  rw [passed, processBroadcast_fresh unknown, checked (n.remember crypto (rivalAt rival ⟨0, 0⟩ ⟨0, 1⟩)) single]
  generalize updateAndCheck _ _ (n.remember _ _) _ _ = updated at list ⊢
  dsimp only
  rw [if_neg (by decide), if_neg (by rw [associated]; decide)]
  unfold checkInputsAndAdd
  rw [if_neg (fun own => Bool.false_ne_true own.1), if_neg (by rw [rival_ping (listed updated renewed list same)]; exact Bool.false_ne_true)]
  have known : (updated.find (rivalAt rival ⟨0, 0⟩ ⟨0, 1⟩).vin).any CMasternode.isEnabled = true := by
    rw [show (rivalAt rival ⟨0, 0⟩ ⟨0, 1⟩).vin = { prevout := ⟨0, 0⟩ } from rfl, found updated renewed list same]
    simp [CMasternode.isEnabled, state, enabled]
  rw [if_pos known, list]
  intro unchanged
  have times := congrArg CMasternode.sigTime (List.cons.inj unchanged).1
  rw [newer, time] at times
  have stays : (rivalAt rival ⟨0, 0⟩ ⟨0, 1⟩).sigTime = rival.sigTime := rfl
  omega

def pingContext : MasternodeManContext :=
  let pindex : CBlockIndex := { hash := mnp.blockHash, nHeight := 0 }
  { doubleContext with
    chain := { doubleContext.chain with tip := some pindex, mapBlockIndex := (∅ : StdMap uint256 CBlockIndex).insert mnp.blockHash pindex }
    chainActive := ⟨[pindex], fun nHeight found there => by
      cases nHeight with
      | zero => exact congrArg CBlockIndex.nHeight (Option.some.inj there).symm
      | succ nHeight => cases there⟩
    getAdjustedTime := mnp.sigTime
    minProto := 0
    shutdownRequested := true }

theorem checkBlock_pingContext : mnp.checkBlock (pingContext mnp) = true := by
  have here : (pingContext mnp).chain.mapBlockIndex.lookup mnp.blockHash = some { hash := mnp.blockHash, nHeight := 0 } :=
    AList.lookup_insert _
  unfold CMasternodePing.checkBlock
  rw [here]
  simp [pingContext, CChain.contains, MasternodeManContext.height]

def unpingedEntry (key : CPubKey) (pinged : Int) : CMasternode where
  vin := mnp.vin
  addr := {}
  pubKeyCollateralAddress := []
  pubKeyMasternode := key
  sigTime := 0
  protocolVersion := 0
  lastPing := { sigTime := pinged, vchSig := 0 :: mnp.vchSig }

theorem exists_later_mnp {key : CPubKey} (signed : crypto.checkPing key rival = true) (pinged : Int) :
    ∃ entry mnp ctx', entry.activeState = .enabled ∧ entry.lastPing.sigTime = pinged ∧ mnp.getHash crypto = rival.getHash crypto ∧
      ignores ctx' = false ∧ Overtakes crypto entry (ctx', .mnp mnp) := by
  refine ⟨unpingedEntry rival key pinged, rival, pingContext rival, rfl, rfl, rfl, rfl, ?_⟩
  generalize made : unpingedEntry rival key pinged = entry
  have vin : entry.vin = rival.vin := by rw [← made]; rfl
  have enabled : entry.isEnabled = true := by rw [← made]; rfl
  have proto : entry.protocolVersion = 0 := by rw [← made]; rfl
  have masternodeKey : entry.pubKeyMasternode = key := by rw [← made]; rfl
  have unpinged : entry.lastPing.isDefault = true := by
    rw [← made]
    rfl
  have sig : entry.lastPing.vchSig = 0 :: rival.vchSig := by rw [← made]; rfl
  clear made
  intro n single fresh
  have checked : ∀ l : CMasternodeMan, l.vMasternodes = [entry] → (rival.checkAndUpdate crypto (pingContext rival) true l).1 = true ∧
      (rival.checkAndUpdate crypto (pingContext rival) true l).2.vMasternodes = [{ entry with lastPing := rival }] := by
    intro l list
    have found : l.find rival.vin = some entry := by rw [find_single list, if_pos (congrArg CTxIn.prevout vin)]
    have late : ¬rival.sigTime > (pingContext rival).getAdjustedTime + 60 * 60 := by
      show ¬rival.sigTime > rival.sigTime + 60 * 60
      omega
    have early : ¬rival.sigTime ≤ (pingContext rival).getAdjustedTime - 60 * 60 := by
      show ¬rival.sigTime ≤ rival.sigTime - 60 * 60
      omega
    have unchecked : CMasternode.check crypto (pingContext rival) true { entry with lastPing := rival } = { entry with lastPing := rival } := if_pos rfl
    unfold CMasternodePing.checkAndUpdate
    rw [if_neg late, if_neg early, found]
    dsimp only
    rw [if_neg (by rw [proto]; exact (by decide : ¬(0 : Int) < 0)), if_neg (by rw [enabled]; decide),
      if_neg (by simp [CMasternode.isPingedWithin, unpinged]), if_neg (by rw [masternodeKey, signed]; decide),
      if_neg (by rw [checkBlock_pingContext]; decide), unchecked]
    exact ⟨enabled, modify_single list (congrArg CTxIn.prevout vin)⟩
  have unknown : n.mapSeenMasternodePing.lookup (rival.getHash crypto) = none := by
    by_contra known
    exact fresh (Or.inr (Option.isSome_iff_ne_none.mpr known))
  refine ⟨⟨rfl, (checked n single).1⟩, ?_⟩
  have passed : (n.step crypto (pingContext rival, .mnp rival)).2 = n.processPing crypto (pingContext rival) rival := rfl
  rw [passed, processPing, if_neg (by rw [unknown]; simp)]
  dsimp only
  rw [(checked { n with mapSeenMasternodePing := n.mapSeenMasternodePing.insert (rival.getHash crypto) rival } single).2]
  intro unchanged
  have pings := congrArg (fun mn : CMasternode => mn.lastPing.vchSig) (List.cons.inj unchanged).1
  rw [sig] at pings
  exact List.cons_ne_self 0 rival.vchSig pings.symm

theorem traces_of_overtakes {entry : CMasternode} (oldest : Int) (enabled : entry.activeState = .enabled)
    (overtakes : Overtakes crypto entry later)
    (forgotten : ¬Stopped crypto later.1 (runFrom crypto m (replaceList m.vMasternodes entry oldest)) later.2)
    (known : (m.step crypto (ctx, op)).2.vMasternodes = m.vMasternodes → Stopped crypto later.1 (runFrom crypto (m.step crypto (ctx, op)).2 (replaceList m.vMasternodes entry oldest)) later.2) :
    ¬LeavesNoTrace crypto m (ctx, op) := by
  rintro ⟨list, silent⟩
  have single : (runFrom crypto m (replaceList m.vMasternodes entry oldest)).vMasternodes = [entry] := by rw [runFrom_replaceList m enabled]
  have single' : (runFrom crypto (m.step crypto (ctx, op)).2 (replaceList m.vMasternodes entry oldest)).vMasternodes = [entry] := by
    rw [← list, runFrom_replaceList _ enabled]
  obtain ⟨valid, changed⟩ := overtakes _ single forgotten
  have same := congrArg Prod.snd (silent (replaceList m.vMasternodes entry oldest) later valid)
  have ignored := step_stopped (known list)
  have stays : (effect crypto (runFrom crypto (m.step crypto (ctx, op)).2 (replaceList m.vMasternodes entry oldest)) later).2 = [entry] := by
    rw [effect, ignored]
    exact single'
  exact changed (same.symm.trans stays)

theorem traces_of_signable (refused : Refused crypto ctx m op) (free : ¬Stopped crypto ctx m op)
    (signable : Signable crypto op) : ¬LeavesNoTrace crypto m (ctx, op) := by
  cases op with
  | mnb mnb =>
    obtain ⟨ignored, unseen⟩ := not_or.mp free
    have heard : ignores ctx = false := by simpa using ignored
    have unknown : m.mapSeenMasternodeBroadcast.lookup (mnb.getHash crypto) = none := by simpa using unseen
    obtain ⟨rival, same, signed⟩ := signable
    have known : ((m.step crypto (ctx, .mnb mnb)).2.mapSeenMasternodeBroadcast.lookup (mnb.getHash crypto)).isSome = true := by
      rw [step_mnb heard]
      exact processBroadcast_refused unknown refused
    obtain ⟨seen, there⟩ := Option.isSome_iff_exists.mp known
    obtain ⟨entry, later, ctx', enabled, pinged, hash, listens, overtakes⟩ := exists_later_mnb signed (seen.lastPing.sigTime - 1)
    have old : (!decide (entry.lastPing.sigTime < seen.lastPing.sigTime)) = false := by
      rw [pinged]
      simp
    refine traces_of_overtakes seen.lastPing.sigTime enabled overtakes ?_ fun list => Or.inr ?_
    · rw [runFrom_replaceList m enabled]
      rintro (deaf | stays)
      · exact Bool.false_ne_true (listens.symm.trans deaf)
      · dsimp only at stays
        rw [hash, same, lookup_filter_insertNew_none unknown old] at stays
        cases stays
    · rw [← list, runFrom_replaceList _ enabled, hash, same]
      dsimp only
      rw [lookup_filter_insertNew_some there (by simp)]
      rfl
  | mnp mnp =>
    obtain ⟨ignored, unseen⟩ := not_or.mp free
    have heard : ignores ctx = false := by simpa using ignored
    have unknown : m.mapSeenMasternodePing.lookup (mnp.getHash crypto) = none := by simpa using unseen
    obtain ⟨rival, key, same, signed⟩ := signable
    have stopped : (mnp.checkAndUpdate crypto ctx true { m with mapSeenMasternodePing := m.mapSeenMasternodePing.insert (mnp.getHash crypto) mnp }) =
        (false, { m with mapSeenMasternodePing := m.mapSeenMasternodePing.insert (mnp.getHash crypto) mnp }) := ping_unsigned _ _ _ refused
    have there : (m.step crypto (ctx, .mnp mnp)).2.mapSeenMasternodePing.lookup (mnp.getHash crypto) = some mnp := by
      unfold step
      dsimp only
      rw [if_neg (by simp [heard]), processPing, if_neg (by simp [unknown])]
      dsimp only
      rw [stopped, lookup_insert_ite, if_pos rfl]
    obtain ⟨entry, later, ctx', enabled, pinged, hash, listens, overtakes⟩ := exists_later_mnp signed (mnp.sigTime - 1)
    have old : (!decide (entry.lastPing.sigTime < mnp.sigTime)) = false := by
      rw [pinged]
      simp
    refine traces_of_overtakes mnp.sigTime enabled overtakes ?_ fun list => Or.inr ?_
    · rw [runFrom_replaceList m enabled]
      rintro (deaf | stays)
      · exact Bool.false_ne_true (listens.symm.trans deaf)
      · dsimp only at stays
        rw [hash, same, lookup_filter_insertNew_none unknown old] at stays
        cases stays
    · rw [← list, runFrom_replaceList _ enabled, hash, same]
      dsimp only
      rw [lookup_filter_insertNew_some there (by simp)]
      rfl
  | _ => exact refused.elim

/-- A refused announcement or ping leaves no trace exactly when it is stopped before it is remembered or nobody can sign a message with its
hash. -/
theorem refused_messages_exact (crypto : MasternodeCrypto) (ctx : MasternodeManContext) (m : CMasternodeMan) :
    (∀ op, Refused crypto ctx m op → (LeavesNoTrace crypto m (ctx, op) ↔ Stopped crypto ctx m op ∨ ¬Signable crypto op)) ∧
      ∀ mnb, Accepted crypto ctx m mnb → ¬HidesNoOther crypto ctx m mnb := by
  refine ⟨fun op refused => ⟨fun silent => ?_, fun harmless => ?_⟩, fun mnb accepted => accepted_hides accepted⟩
  · by_contra loud
    obtain ⟨free, signable⟩ := not_or.mp loud
    exact traces_of_signable refused free (not_not.mp signable) silent
  · rcases harmless with stopped | unsignable
    · exact leavesNoTrace_stopped stopped
    · refine leavesNoTrace_unsignable ?_ unsignable
      cases op with
      | mnb mnb => exact Or.inl ⟨mnb, rfl⟩
      | mnp mnp => exact Or.inr ⟨mnp, rfl⟩
      | _ => exact refused.elim

def signedCrypto : MasternodeCrypto :=
  { openCrypto with
    broadcastHash := fun sigTime key => BitVec.ofInt 256 (sigTime * 256 + (key.headD 0).toNat)
    pingHash := fun vin _ sigTime => BitVec.ofInt 256 (sigTime * 256 + vin.prevout.n)
    verifyMessage := fun key vchSig _ => vchSig == key
    checkPing := fun key mnp => mnp.vchSig == key }

def announcement (n : Nat) (vchSig : valtype) : CMasternode := { doubleBroadcast n with vchSig }

/-- Where no signature is correct, a refused announcement leaves no trace. Where every one is, an accepted announcement hides others. -/
theorem forged_leaves_no_trace :
    LeavesNoTrace { openCrypto with verifyMessage := fun _ _ _ => false } {} (doubleContext, .mnb (doubleBroadcast 0)) ∧
      ¬HidesNoOther signedCrypto doubleContext {} (announcement 0 [1]) := by
  constructor
  · refine ((refused_messages_exact { openCrypto with verifyMessage := fun _ _ _ => false } doubleContext {}).1 (.mnb (doubleBroadcast 0)) (Or.inl rfl)).mpr
      (Or.inr ?_)
    rintro ⟨rival, -, signed⟩
    exact Bool.false_ne_true signed
  · exact (refused_messages_exact signedCrypto doubleContext {}).2 _ ⟨by decide, ⟨by decide, by decide, by decide⟩, by decide⟩

/-- Anyone who sends the announcement of a masternode with another signature first makes a node ignore it. -/
theorem forged_announcement_silences_owner :
    Refused signedCrypto doubleContext {} (.mnb (announcement 0 [0])) ∧
      Valid signedCrypto doubleContext {} (.mnb (announcement 0 [1])) ∧
      (step signedCrypto {} (doubleContext, .mnb (announcement 0 [1]))).1 = some (announcement 0 [1]) ∧
      effect signedCrypto (step signedCrypto {} (doubleContext, .mnb (announcement 0 [0]))).2 (doubleContext, .mnb (announcement 0 [1])) = (none, []) ∧
      ¬LeavesNoTrace signedCrypto {} (doubleContext, .mnb (announcement 0 [0])) ∧
      (step signedCrypto {} (doubleContext, .mnb (announcement 1 [1]))).1 = some (announcement 1 [1]) ∧
      (step signedCrypto (step signedCrypto {} (doubleContext, .mnb (announcement 0 [1]))).2 (doubleContext, .mnb (announcement 1 [1]))).1 = none := by
  have valid : Valid signedCrypto doubleContext {} (.mnb (announcement 0 [1])) := ⟨by decide, by decide, by decide⟩
  have silenced : effect signedCrypto (step signedCrypto {} (doubleContext, .mnb (announcement 0 [0]))).2 (doubleContext, .mnb (announcement 0 [1])) =
      (none, []) := by decide
  refine ⟨Or.inl (by decide), valid, by decide, silenced, fun silent => ?_, by decide, by decide⟩
  have same := silent.2 [] (doubleContext, .mnb (announcement 0 [1])) valid
  rw [runFrom, List.foldl_nil, silenced] at same
  exact absurd same (by decide)

end CMasternodeMan

end SchillingCoin
