import SchillingCoin.Primitives.Hex
import SchillingCoin.Masternode.AddressText
import SchillingCoin.Spork.SporkManager

/-!
The texts that were signed before messages were hashed field by field, after `GetStrMessage` of `spork.cpp`,
`masternode-budget.cpp` and `masternode.cpp`.
-/

namespace SchillingCoin

open Decimal

namespace CSporkMessage

/-- `ProcessSpork` ignores messages about other sporks. -/
def isKnown (spork : CSporkMessage) : Prop := CSporkManager.getSporkNameByID spork.nSporkID ≠ "Unknown"

instance (spork : CSporkMessage) : Decidable spork.isKnown := inferInstanceAs (Decidable (_ ≠ _))

def getStrMessage (spork : CSporkMessage) : List UInt8 := signed spork.nSporkID ++ signed spork.nValue ++ signed spork.nTimeSigned

end CSporkMessage

/-- `uint256::ToString`, the highest byte first. -/
def hexHash (hash : uint256) : List UInt8 := (Codec.leBytes 32 hash.toNat).reverse.flatMap hexByte

def COutPoint.toStringShort (prevout : COutPoint) : List UInt8 := (hexHash prevout.hash).take 64 ++ [0x2d] ++ numeral prevout.n

def CBudgetVote.getStrMessage (vote : CBudgetVote) : List UInt8 :=
  vote.vin.prevout.toStringShort ++ hexHash vote.nProposalHash ++ signed vote.nVote ++ signed vote.nTime

/-- The text of `CMasternode::GetStrMessage`, with the raw bytes of the two keys. -/
def CMasternode.strMessage (getnameinfo : List UInt8 → Option (List UInt8)) (mn : CMasternode) : List UInt8 :=
  mn.addr.toString getnameinfo ++ signed mn.sigTime ++ mn.pubKeyCollateralAddress ++ mn.pubKeyMasternode ++ signed mn.protocolVersion

theorem hexByte_injective : Function.Injective hexByte := by
  intro a b same
  have code : ∀ d < 16, (UInt8.ofNat (if d < 10 then 48 + d else 87 + d)).toNat = if d < 10 then 48 + d else 87 + d := by
    intro d small
    rw [UInt8.toNat_ofNat']
    split <;> omega
  have digit : ∀ d < 16, ∀ d' < 16, UInt8.ofNat (if d < 10 then 48 + d else 87 + d) = UInt8.ofNat (if d' < 10 then 48 + d' else 87 + d') →
      d = d' := by
    intro d small d' small' equal
    have codes := congrArg UInt8.toNat equal
    rw [code d small, code d' small'] at codes
    split at codes <;> split at codes <;> omega
  have low := a.toNat_lt
  have low' := b.toNat_lt
  obtain ⟨first, others⟩ := List.cons.inj same
  have high := digit _ (by omega) _ (by omega) first
  have rest := digit _ (Nat.mod_lt _ (by omega)) _ (Nat.mod_lt _ (by omega)) (List.cons.inj others).1
  exact UInt8.toNat_inj.mp (by omega)

theorem length_flatMap_hexByte (bytes : List UInt8) : (bytes.flatMap hexByte).length = 2 * bytes.length := by
  induction bytes with
  | nil => rfl
  | cons b rest ih =>
    rw [List.flatMap_cons, List.length_append, ih, List.length_cons]
    change 2 + _ = _
    omega

theorem length_hexHash (hash : uint256) : (hexHash hash).length = 64 := by
  rw [hexHash, length_flatMap_hexByte, List.length_reverse, Codec.length_leBytes]

theorem flatMap_hexByte_injective : Function.Injective (List.flatMap hexByte) := by
  intro a b same
  induction a generalizing b with
  | nil =>
    cases b with
    | nil => rfl
    | cons c rest => cases same
  | cons c rest ih =>
    cases b with
    | nil => cases same
    | cons c' rest' =>
      rw [List.flatMap_cons, List.flatMap_cons] at same
      obtain ⟨first, others⟩ := List.append_inj same rfl
      rw [hexByte_injective first, ih others]

theorem hexHash_injective : Function.Injective hexHash := by
  intro a b same
  have bytes := List.reverse_injective (flatMap_hexByte_injective same)
  have values := congrArg Codec.leValue bytes
  rw [Codec.leValue_leBytes, Codec.leValue_leBytes] at values
  have low : ∀ h : uint256, h.toNat % 256 ^ 32 = h.toNat := fun h => Nat.mod_eq_of_lt h.isLt
  rw [low, low] at values
  exact BitVec.eq_of_toNat_eq values

def CSporkMessage.Moved (a b : CSporkMessage) : Prop :=
  a.nSporkID = b.nSporkID ∧ Carried a.nValue a.nTimeSigned b.nValue b.nTimeSigned

theorem length_known {spork : CSporkMessage} (known : spork.isKnown) : (signed spork.nSporkID).length = 5 := by
  have lengths : ∀ d ∈ sporkDefs, (signed d.sporkId).length = 5 := by decide
  unfold CSporkMessage.isKnown CSporkManager.getSporkNameByID at known
  split at known
  · exact absurd rfl known
  · next d found =>
    have test : (d.sporkId == spork.nSporkID) = true := List.find?_some (p := fun d : CSporkDef => d.sporkId == spork.nSporkID) found
    have same : d.sporkId = spork.nSporkID := eq_of_beq test
    rw [← same]
    exact lengths d (List.mem_of_find?_eq_some found)

def CSporkMessage.SameSpork (a b : CSporkMessage) : Prop :=
  a.nSporkID = b.nSporkID ∧ a.nValue = b.nValue ∧ a.nTimeSigned = b.nTimeSigned

theorem sporkText_iff {b : CSporkMessage} (known : a.isKnown) (known' : b.isKnown) :
    a.getStrMessage = b.getStrMessage ↔ a.SameSpork b ∨ a.Moved b ∨ b.Moved a := by
  have split : a.getStrMessage = b.getStrMessage ↔ a.nSporkID = b.nSporkID ∧
      signed a.nValue ++ signed a.nTimeSigned = signed b.nValue ++ signed b.nTimeSigned := by
    rw [CSporkMessage.getStrMessage, CSporkMessage.getStrMessage, List.append_assoc, List.append_assoc]
    constructor
    · intro same
      obtain ⟨id_, others⟩ := List.append_inj same (by rw [length_known known, length_known known'])
      exact ⟨signed_injective id_, others⟩
    · rintro ⟨id_, others⟩
      rw [id_, others]
  rw [split, signed_append_eq_iff]
  constructor
  · rintro ⟨id_, ⟨value, time⟩ | moved | moved⟩
    · exact Or.inl ⟨id_, value, time⟩
    · exact Or.inr (Or.inl ⟨id_, moved⟩)
    · exact Or.inr (Or.inr ⟨id_.symm, moved⟩)
  · rintro (⟨id_, value, time⟩ | ⟨id_, moved⟩ | ⟨id_, moved⟩)
    · exact ⟨id_, Or.inl ⟨value, time⟩⟩
    · exact ⟨id_, Or.inr (Or.inl moved)⟩
    · exact ⟨id_.symm, Or.inr (Or.inr moved)⟩

/-- The leading digits of the proposal's hash stand at the end of the output index instead, and as many leading digits of the vote
and the time at the end of the hash; or leading digits of the time stand at the end of the vote. -/
def CBudgetVote.Moved (a b : CBudgetVote) : Prop :=
  a.vin.prevout.hash = b.vin.prevout.hash ∧
    ((a.vin.prevout.n = b.vin.prevout.n ∧ a.nProposalHash = b.nProposalHash ∧ Carried a.nVote a.nTime b.nVote b.nTime) ∨
      ∃ d e, d ≠ [] ∧ numeral b.vin.prevout.n = numeral a.vin.prevout.n ++ d ∧
        d ++ hexHash b.nProposalHash = hexHash a.nProposalHash ++ e ∧
        signed a.nVote ++ signed a.nTime = e ++ (signed b.nVote ++ signed b.nTime))

def CBudgetVote.SameVote (a b : CBudgetVote) : Prop :=
  a.vin.prevout = b.vin.prevout ∧ a.nProposalHash = b.nProposalHash ∧ a.nVote = b.nVote ∧ a.nTime = b.nTime

theorem shifted_of_longer {hash : uint256} (longer : numeral n' = numeral n ++ more)
    (shorter : hexHash hash ++ tail = more ++ (hexHash hash' ++ tail')) :
    (n = n' ∧ hash = hash' ∧ tail = tail') ∨
      ∃ d e, d ≠ [] ∧ numeral n' = numeral n ++ d ∧ d ++ hexHash hash' = hexHash hash ++ e ∧ tail = e ++ tail' := by
  by_cases none_ : more = []
  · subst none_
    rw [List.append_nil] at longer
    rw [List.nil_append] at shorter
    obtain ⟨hashes, tails⟩ := List.append_inj shorter (by rw [length_hexHash, length_hexHash])
    exact Or.inl ⟨(numeral_injective longer).symm, hexHash_injective hashes, tails⟩
  · right
    rw [← List.append_assoc] at shorter
    rcases List.append_eq_append_iff.mp shorter with ⟨e, moved, rest⟩ | ⟨e, moved, rest⟩
    · exact ⟨more, e, none_, longer, moved, rest⟩
    · -- the hash is not longer than the digits and the other hash
      have lengths := congrArg List.length moved
      rw [List.length_append, List.length_append, length_hexHash, length_hexHash] at lengths
      have some_ := List.length_pos_of_ne_nil none_
      omega

theorem voteText_iff (a b : CBudgetVote) : a.getStrMessage = b.getStrMessage ↔ a.SameVote b ∨ a.Moved b ∨ b.Moved a := by
  have whole : ∀ h : uint256, (hexHash h).take 64 = hexHash h := fun h => List.take_of_length_le (by rw [length_hexHash])
  have split : a.getStrMessage = b.getStrMessage ↔ a.vin.prevout.hash = b.vin.prevout.hash ∧
      numeral a.vin.prevout.n ++ (hexHash a.nProposalHash ++ (signed a.nVote ++ signed a.nTime)) =
        numeral b.vin.prevout.n ++ (hexHash b.nProposalHash ++ (signed b.nVote ++ signed b.nTime)) := by
    rw [CBudgetVote.getStrMessage, CBudgetVote.getStrMessage, COutPoint.toStringShort, COutPoint.toStringShort, whole, whole]
    simp only [List.append_assoc]
    constructor
    · intro same
      obtain ⟨hashes, others⟩ := List.append_inj same (by rw [length_hexHash, length_hexHash])
      exact ⟨hexHash_injective hashes, List.append_cancel_left others⟩
    · rintro ⟨hashes, others⟩
      rw [hashes, others]
  rw [split]
  constructor
  · rintro ⟨hashes, same⟩
    have outpoint : a.vin.prevout.n = b.vin.prevout.n → a.vin.prevout = b.vin.prevout := fun index =>
      match a.vin.prevout, b.vin.prevout, hashes, index with
      | ⟨_, _⟩, ⟨_, _⟩, rfl, rfl => rfl
    rcases List.append_eq_append_iff.mp same with ⟨more, longer, shorter⟩ | ⟨more, longer, shorter⟩
    · rcases shifted_of_longer longer shorter with ⟨index, proposal, tails⟩ | shift
      · rcases (signed_append_eq_iff _ _ _ _).mp tails with ⟨vote, time⟩ | moved | moved
        · exact Or.inl ⟨outpoint index, proposal, vote, time⟩
        · exact Or.inr (Or.inl ⟨hashes, Or.inl ⟨index, proposal, moved⟩⟩)
        · exact Or.inr (Or.inr ⟨hashes.symm, Or.inl ⟨index.symm, proposal.symm, moved⟩⟩)
      · exact Or.inr (Or.inl ⟨hashes, Or.inr shift⟩)
    · rcases shifted_of_longer longer shorter with ⟨index, proposal, tails⟩ | shift
      · rcases (signed_append_eq_iff _ _ _ _).mp tails with ⟨vote, time⟩ | moved | moved
        · exact Or.inl ⟨outpoint index.symm, proposal.symm, vote.symm, time.symm⟩
        · exact Or.inr (Or.inr ⟨hashes.symm, Or.inl ⟨index, proposal, moved⟩⟩)
        · exact Or.inr (Or.inl ⟨hashes, Or.inl ⟨index.symm, proposal.symm, moved⟩⟩)
      · exact Or.inr (Or.inr ⟨hashes.symm, Or.inr shift⟩)
  · have moved : ∀ {a b : CBudgetVote}, a.Moved b → a.vin.prevout.hash = b.vin.prevout.hash ∧
        numeral a.vin.prevout.n ++ (hexHash a.nProposalHash ++ (signed a.nVote ++ signed a.nTime)) =
          numeral b.vin.prevout.n ++ (hexHash b.nProposalHash ++ (signed b.nVote ++ signed b.nTime)) := by
      rintro a b ⟨hashes, ⟨index, proposal, carried⟩ | ⟨d, e, -, longer, shift, tails⟩⟩
      · exact ⟨hashes, by rw [index, proposal, carried.text]⟩
      · refine ⟨hashes, ?_⟩
        rw [longer, tails, ← List.append_assoc (hexHash a.nProposalHash), ← shift]
        simp only [List.append_assoc]
    rintro (⟨outpoint, proposal, vote, time⟩ | shift | shift)
    · exact ⟨congrArg COutPoint.hash outpoint, by rw [outpoint, proposal, vote, time]⟩
    · exact moved shift
    · exact ⟨(moved shift).1.symm, (moved shift).2.symm⟩

def CMasternode.Moved (a b : CMasternode) : Prop :=
  a.addr.ip = b.addr.ip ∧ a.pubKeyCollateralAddress = b.pubKeyCollateralAddress ∧ a.pubKeyMasternode = b.pubKeyMasternode ∧
    a.protocolVersion = b.protocolVersion ∧ Carried a.addr.port a.sigTime b.addr.port b.sigTime

def CMasternode.SameAnnouncement (a b : CMasternode) : Prop :=
  a.addr = b.addr ∧ a.sigTime = b.sigTime ∧ a.pubKeyCollateralAddress = b.pubKeyCollateralAddress ∧
    a.pubKeyMasternode = b.pubKeyMasternode ∧ a.protocolVersion = b.protocolVersion

/-- The fields have the sizes of their types: an address of 16 bytes, and keys of as many bytes as their headers say. -/
structure CMasternode.Sized (mn : CMasternode) : Prop where
  ip : mn.addr.ip.length = 16
  collateral : isValidPubKey mn.pubKeyCollateralAddress = true
  key : isValidPubKey mn.pubKeyMasternode = true

theorem pubKey_header (valid : isValidPubKey key = true) :
    ∃ header rest, key = header :: rest ∧ pubKeyLen header = key.length ∧ ¬(IsDigit header ∨ header = 45) := by
  cases key with
  | nil => cases valid
  | cons header rest =>
    have fits : pubKeyLen header ≠ 0 ∧ pubKeyLen header = (header :: rest).length := by simpa [isValidPubKey] using valid
    refine ⟨header, rest, rfl, fits.2, ?_⟩
    have headers : header = 2 ∨ header = 3 ∨ header = 4 ∨ header = 6 ∨ header = 7 := by
      have nonzero := fits.1
      unfold pubKeyLen at nonzero
      split at nonzero
      · next short => exact short.elim Or.inl fun three => Or.inr (Or.inl three)
      · split at nonzero
        · next long => exact Or.inr (Or.inr long)
        · exact absurd rfl nonzero
    rcases headers with rfl | rfl | rfl | rfl | rfl <;> decide

theorem pubKey_append_inj (valid : isValidPubKey key = true) (valid' : isValidPubKey key' = true)
    (same : key ++ rest = key' ++ rest') : key = key' ∧ rest = rest' := by
  obtain ⟨header, bytes, cons, length, -⟩ := pubKey_header valid
  obtain ⟨header', bytes', cons', length', -⟩ := pubKey_header valid'
  have heads : header = header' := by
    rw [cons, cons'] at same
    exact (List.cons.inj same).1
  exact List.append_inj same (by rw [← length, ← length', heads])

theorem signed_inNumber : ∀ c ∈ signed z, IsDigit c ∨ c = 45 := by
  intro c member
  cases z with
  | ofNat n => exact Or.inl (numeral_isDigit member)
  | negSucc n =>
    rcases List.mem_cons.mp member with minus | digit
    · exact Or.inr minus
    · exact Or.inl (numeral_isDigit digit)

theorem announcementText_iff {a : CMasternode} (sized : a.Sized) (sized' : b.Sized)
    (forms : CService.NumericForms getnameinfo a.addr b.addr) :
    a.strMessage getnameinfo = b.strMessage getnameinfo ↔ a.SameAnnouncement b ∨ a.Moved b ∨ b.Moved a := by
  have split : a.strMessage getnameinfo = b.strMessage getnameinfo ↔ a.addr.ip = b.addr.ip ∧
      signed a.addr.port ++ signed a.sigTime = signed b.addr.port ++ signed b.sigTime ∧
      a.pubKeyCollateralAddress = b.pubKeyCollateralAddress ∧ a.pubKeyMasternode = b.pubKeyMasternode ∧
      a.protocolVersion = b.protocolVersion := by
    rw [CMasternode.strMessage, CMasternode.strMessage]
    simp only [List.append_assoc]
    constructor
    · intro same
      obtain ⟨ip, same⟩ := CService.toString_append_inj forms sized.ip sized'.ip same
      rw [← List.append_assoc, ← List.append_assoc (numeral b.addr.port)] at same
      have inNumber : ∀ (port : Nat) (time : Int), ∀ c ∈ numeral port ++ signed time, IsDigit c ∨ c = 45 := by
        intro port time c member
        rcases List.mem_append.mp member with digit | other
        · exact Or.inl (numeral_isDigit digit)
        · exact signed_inNumber c other
      have headed : ∀ {key : CPubKey} (rest : List UInt8), isValidPubKey key = true → ∃ c ∈ (key ++ rest).head?, ¬(IsDigit c ∨ c = 45) := by
        intro key rest valid
        obtain ⟨header, bytes, rfl, -, outside⟩ := pubKey_header valid
        exact ⟨header, rfl, outside⟩
      obtain ⟨numbers, same⟩ := append_inj_of_class (inNumber _ _) (inNumber _ _) (headed _ sized.collateral) (headed _ sized'.collateral) same
      obtain ⟨collateral, same⟩ := pubKey_append_inj sized.collateral sized'.collateral same
      obtain ⟨key, same⟩ := pubKey_append_inj sized.key sized'.key same
      exact ⟨ip, numbers, collateral, key, signed_injective same⟩
    · rintro ⟨ip, numbers, collateral, key, version⟩
      obtain ⟨front, text, text'⟩ := CService.toString_of_ip getnameinfo ip
      have digits : numeral a.addr.port ++ signed a.sigTime = numeral b.addr.port ++ signed b.sigTime := numbers
      rw [text, text', collateral, key, version, List.append_assoc, ← List.append_assoc (numeral a.addr.port), digits]
      simp only [List.append_assoc]
  rw [split, signed_append_eq_iff]
  constructor
  · rintro ⟨ip, ⟨port, time⟩ | moved | moved, collateral, key, version⟩
    · have addr : a.addr = b.addr := match a.addr, b.addr, ip, Int.ofNat.inj port with
        | ⟨_, _⟩, ⟨_, _⟩, rfl, rfl => rfl
      exact Or.inl ⟨addr, time, collateral, key, version⟩
    · exact Or.inr (Or.inl ⟨ip, collateral, key, version, moved⟩)
    · exact Or.inr (Or.inr ⟨ip.symm, collateral.symm, key.symm, version.symm, moved⟩)
  · rintro (⟨addr, time, collateral, key, version⟩ | ⟨ip, collateral, key, version, moved⟩ | ⟨ip, collateral, key, version, moved⟩)
    · exact ⟨congrArg CService.ip addr, Or.inl ⟨by rw [addr], time⟩, collateral, key, version⟩
    · exact ⟨ip, Or.inr (Or.inl moved), collateral, key, version⟩
    · exact ⟨ip.symm, Or.inr (Or.inr moved), collateral.symm, key.symm, version.symm⟩

theorem CSporkMessage.Moved.not_same {a : CSporkMessage} (moved : a.Moved b) : ¬a.SameSpork b := fun same =>
  moved.2.ne same.2.2

theorem CBudgetVote.Moved.not_same {a : CBudgetVote} (moved : a.Moved b) : ¬a.SameVote b := by
  rintro ⟨outpoint, -, -, time⟩
  rcases moved with ⟨-, ⟨-, -, carried⟩ | ⟨d, e, some_, longer, -⟩⟩
  · exact carried.ne time
  · rw [outpoint] at longer
    exact some_ (List.append_right_eq_self.mp longer.symm)

theorem CMasternode.Moved.not_same {a : CMasternode} (moved : a.Moved b) : ¬a.SameAnnouncement b := fun same =>
  moved.2.2.2.2.ne same.2.1

/-- The messages of two texts that are equal are the same unless digits moved from one field to the one before it. -/
theorem one_text_one_message_iff (getnameinfo : List UInt8 → Option (List UInt8)) :
    (∀ a b : CSporkMessage, a.isKnown → b.isKnown →
      ((a.getStrMessage = b.getStrMessage → a.SameSpork b) ↔ ¬a.Moved b ∧ ¬b.Moved a)) ∧
    (∀ a b : CBudgetVote, (a.getStrMessage = b.getStrMessage → a.SameVote b) ↔ ¬a.Moved b ∧ ¬b.Moved a) ∧
    ∀ a b : CMasternode, a.Sized → b.Sized → CService.NumericForms getnameinfo a.addr b.addr →
      ((a.strMessage getnameinfo = b.strMessage getnameinfo → a.SameAnnouncement b) ↔ ¬a.Moved b ∧ ¬b.Moved a) := by
  refine ⟨?_, ?_, ?_⟩
  · intro a b known known'
    rw [sporkText_iff known known']
    constructor
    · intro one
      refine ⟨fun moved => moved.not_same (one (Or.inr (Or.inl moved))), fun moved => moved.not_same ?_⟩
      obtain ⟨id_, value, time⟩ := one (Or.inr (Or.inr moved))
      exact ⟨id_.symm, value.symm, time.symm⟩
    · rintro ⟨unmoved, unmoved'⟩ (same | moved | moved)
      · exact same
      · exact absurd moved unmoved
      · exact absurd moved unmoved'
  · intro a b
    rw [voteText_iff]
    constructor
    · intro one
      refine ⟨fun moved => moved.not_same (one (Or.inr (Or.inl moved))), fun moved => moved.not_same ?_⟩
      obtain ⟨outpoint, proposal, vote, time⟩ := one (Or.inr (Or.inr moved))
      exact ⟨outpoint.symm, proposal.symm, vote.symm, time.symm⟩
    · rintro ⟨unmoved, unmoved'⟩ (same | moved | moved)
      · exact same
      · exact absurd moved unmoved
      · exact absurd moved unmoved'
  · intro a b sized sized' forms
    rw [announcementText_iff sized sized' forms]
    constructor
    · intro one
      refine ⟨fun moved => moved.not_same (one (Or.inr (Or.inl moved))), fun moved => moved.not_same ?_⟩
      obtain ⟨addr, time, collateral, key, version⟩ := one (Or.inr (Or.inr moved))
      exact ⟨addr.symm, time.symm, collateral.symm, key.symm, version.symm⟩
    · rintro ⟨unmoved, unmoved'⟩ (same | moved | moved)
      · exact same
      · exact absurd moved unmoved
      · exact absurd moved unmoved'

def sporkAt (nValue nTimeSigned : Int) : CSporkMessage := { nSporkID := 10004, nValue, nTimeSigned }

def voteAt (n : Nat) (nProposalHash : uint256) (nTime : Int) : CBudgetVote :=
  { vin := { prevout := { hash := 0, n } }, nProposalHash, nVote := 1, nTime }

def announcedAt (port : Nat) (sigTime : Int) : CMasternode where
  vin := { prevout := .null }
  addr := { ip := CService.pchIPv4 ++ [1, 2, 3, 4], port }
  pubKeyCollateralAddress := 2 :: List.replicate 32 0
  pubKeyMasternode := 3 :: List.replicate 32 0
  sigTime
  protocolVersion := 70919

def plainNames (ip : List UInt8) : Option (List UInt8) := some (CService.fallbackIP { ip })

theorem announcedAt_sized (port : Nat) (sigTime : Int) : (announcedAt port sigTime).Sized := ⟨rfl, rfl, rfl⟩

theorem plainNames_forms (port port' : Nat) (sigTime sigTime' : Int) :
    CService.NumericForms plainNames (announcedAt port sigTime).addr (announcedAt port' sigTime').addr := by
  have text : ∀ port sigTime, CService.numericHost plainNames (announcedAt port sigTime).addr =
      [0x31, 0x2e, 0x32, 0x2e, 0x33, 0x2e, 0x34] := fun _ _ => rfl
  refine ⟨fun _ _ _ => rfl, ?_, ?_⟩
  · intro a member _ c found
    have digits : ∀ c ∈ ([0x31, 0x2e, 0x32, 0x2e, 0x33, 0x2e, 0x34] : List UInt8), IsDigit c ∨ c = 0x2e := by simp [IsDigit]
    rcases List.mem_pair.mp member with rfl | rfl <;> exact digits c (by rwa [text] at found)
  · intro a member
    rcases List.mem_pair.mp member with rfl | rfl <;> simp [text]

theorem one_text_one_message_later :
    (((sporkAt 0 1600000000).getStrMessage = (sporkAt 0 1600000001).getStrMessage →
        (sporkAt 0 1600000000).SameSpork (sporkAt 0 1600000001)) ↔
      ¬(sporkAt 0 1600000000).Moved (sporkAt 0 1600000001) ∧ ¬(sporkAt 0 1600000001).Moved (sporkAt 0 1600000000)) ∧
    (((voteAt 0 0 1600000000).getStrMessage = (voteAt 0 0 1600000001).getStrMessage →
        (voteAt 0 0 1600000000).SameVote (voteAt 0 0 1600000001)) ↔
      ¬(voteAt 0 0 1600000000).Moved (voteAt 0 0 1600000001) ∧ ¬(voteAt 0 0 1600000001).Moved (voteAt 0 0 1600000000)) ∧
    (((announcedAt 5156 1600000000).strMessage plainNames = (announcedAt 5156 1600000001).strMessage plainNames →
        (announcedAt 5156 1600000000).SameAnnouncement (announcedAt 5156 1600000001)) ↔
      ¬(announcedAt 5156 1600000000).Moved (announcedAt 5156 1600000001) ∧
        ¬(announcedAt 5156 1600000001).Moved (announcedAt 5156 1600000000)) :=
  ⟨(one_text_one_message_iff plainNames).1 _ _ (by decide) (by decide), (one_text_one_message_iff plainNames).2.1 _ _,
    (one_text_one_message_iff plainNames).2.2 _ _ (announcedAt_sized _ _) (announcedAt_sized _ _) (plainNames_forms _ _ _ _)⟩

set_option maxRecDepth 4000 in
/-- For each kind of message two that differ and have one text: a digit of the time counts to the value, to the vote's hash of
which the first digit counts to the output index, or to the port. -/
theorem one_text_two_messages :
    ((sporkAt 1000 1600000000).isKnown ∧ (sporkAt 1000 1600000000).getStrMessage = (sporkAt 10001 600000000).getStrMessage ∧
      ¬(sporkAt 1000 1600000000).SameSpork (sporkAt 10001 600000000)) ∧
    ((voteAt 1 (5 * 16 ^ 63) 1600000000).getStrMessage = (voteAt 15 1 600000000).getStrMessage ∧
      ¬(voteAt 1 (5 * 16 ^ 63) 1600000000).SameVote (voteAt 15 1 600000000)) ∧
    (announcedAt 5156 1600000000).strMessage plainNames = (announcedAt 51561 600000000).strMessage plainNames ∧
      ¬(announcedAt 5156 1600000000).SameAnnouncement (announcedAt 51561 600000000) := by
  refine ⟨⟨by decide, by decide, fun same => ?_⟩, ⟨by decide, fun same => ?_⟩, by decide, fun same => ?_⟩
  · exact absurd same.2.2 (by decide)
  · exact absurd same.2.2.2 (by decide)
  · exact absurd same.2.1 (by decide)

end SchillingCoin
