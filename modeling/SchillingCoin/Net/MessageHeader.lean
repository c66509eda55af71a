import SchillingCoin.Consensus.Params
import SchillingCoin.Primitives.Base58Check
import SchillingCoin.Primitives.Serialize

/-!
The header of a message between peers, after `CMessageHeader` in `protocol.cpp` and `BeginMessage` and `EndMessage` in `net.cpp`. The
double hash is a parameter.
-/

namespace SchillingCoin

open Codec

def Network.messageStart : Network → List UInt8
  | .main => [0x63, 0x43, 0x49, 0x56]
  | .testnet => [0x45, 0x76, 0x65, 0xba]
  | .regtest => [0xa1, 0xcf, 0x7e, 0xac]

@[simp] theorem Network.length_messageStart (network : Network) : network.messageStart.length = 4 := by
  cases network <;> rfl

namespace Transport

def MAX_PROTOCOL_MESSAGE_LENGTH : Nat := 2 * 1024 * 1024

/-- A command and its data. -/
abbrev NetMessage := List UInt8 × List UInt8

/-- `memcpy` to a place in a buffer. -/
def overwrite (buffer : List UInt8) (pos : Nat) (bytes : List UInt8) : List UInt8 :=
  buffer.take pos ++ (bytes ++ buffer.drop (pos + bytes.length))

def strncpy (source : List UInt8) (size : Nat) : List UInt8 := (source.take size).rightpad size 0

structure CMessageHeader where
  pchMessageStart : List UInt8
  pchCommand : List UInt8
  nMessageSize : Nat
  nChecksum : Nat
  deriving DecidableEq, Repr

namespace CMessageHeader

def create (network : Network) (pszCommand : List UInt8) (nMessageSizeIn : Nat) : CMessageHeader :=
  ⟨network.messageStart, strncpy pszCommand 12, nMessageSizeIn, 0⟩

def serialize (hdr : CMessageHeader) : List UInt8 :=
  hdr.pchMessageStart ++ (hdr.pchCommand ++ (leBytes 4 hdr.nMessageSize ++ leBytes 4 hdr.nChecksum))

def unserialize (bytes : List UInt8) : CMessageHeader :=
  ⟨bytes.take 4, (bytes.drop 4).take 12, leValue ((bytes.drop 16).take 4), leValue ((bytes.drop 20).take 4)⟩

def getCommand (hdr : CMessageHeader) : List UInt8 := hdr.pchCommand.takeWhile (· ≠ 0)

def isValidCommand : List UInt8 → Bool
  | [] => true
  | c :: rest => if c = 0 then rest.all (· = 0) else if c < 0x20 || 0x7E < c then false else isValidCommand rest

def isValid (network : Network) (hdr : CMessageHeader) : Bool :=
  hdr.pchMessageStart = network.messageStart && isValidCommand hdr.pchCommand && decide (hdr.nMessageSize ≤ MAX_SIZE)

end CMessageHeader

/-- The chain parameters, and the double hash. -/
structure WireParams where
  network : Network
  Hash : List UInt8 → uint256

section

variable (params : WireParams)

def nChecksum (data : List UInt8) : Nat := leValue (Base58.checksum params.Hash data)

/-- The size and the checksum are written into the header that `BeginMessage` left open. -/
def endMessage (ssSend : List UInt8) : List UInt8 :=
  let ssSend := overwrite ssSend 16 (leBytes 4 (ssSend.length - 24))
  overwrite ssSend 20 (leBytes 4 (nChecksum params (ssSend.drop 24)))

/-- A command of at most twelve printable characters, with data of at most the length that peers accept. -/
structure Sendable (message : NetMessage) : Prop where
  command : message.1.length ≤ 12
  printable : ∀ c ∈ message.1, 0x20 ≤ c ∧ c ≤ 0x7E
  data : message.2.length ≤ MAX_PROTOCOL_MESSAGE_LENGTH

/-- The header a message goes out with. -/
def header (message : NetMessage) : CMessageHeader :=
  { CMessageHeader.create params.network message.1 message.2.length with nChecksum := nChecksum params message.2 }

def frame (message : NetMessage) : List UInt8 := (header params message).serialize ++ message.2

end

theorem overwrite_inside (place : front.length = pos) (old new back : List UInt8) (size : new.length = old.length) :
    overwrite (front ++ (old ++ back)) pos new = front ++ (new ++ back) := by
  simp [overwrite, ← place, size]

@[simp] theorem length_strncpy (source : List UInt8) (size : Nat) : (strncpy source size).length = size := by
  rw [strncpy, List.length_rightpad, List.length_take]
  omega

theorem strncpy_short {size : Nat} (short : source.length ≤ size) :
    strncpy source size = source ++ List.replicate (size - source.length) 0 := by
  rw [strncpy, List.take_of_length_le short, List.rightpad]

variable {params : WireParams} {message : NetMessage}

namespace CMessageHeader

theorem unserialize_bytes (start : hdr.pchMessageStart.length = 4) (command : hdr.pchCommand.length = 12)
    (size : hdr.nMessageSize < 2 ^ 32) (checksum : hdr.nChecksum < 2 ^ 32) : unserialize hdr.serialize = hdr := by
  have fields : hdr.serialize.drop 4 = hdr.pchCommand ++ (leBytes 4 hdr.nMessageSize ++ leBytes 4 hdr.nChecksum) :=
    List.drop_left' start
  have numbers : hdr.serialize.drop 16 = leBytes 4 hdr.nMessageSize ++ leBytes 4 hdr.nChecksum := by
    rw [show 16 = 4 + 12 from rfl, ← List.drop_drop, fields, List.drop_left' command]
  have last : hdr.serialize.drop 20 = leBytes 4 hdr.nChecksum := by
    rw [show 20 = 16 + 4 from rfl, ← List.drop_drop, numbers, List.drop_left' (length_leBytes 4 _)]
  rw [unserialize, fields, numbers, last, List.take_left' command, List.take_left' (length_leBytes 4 _), serialize,
    List.take_left' start, List.take_of_length_le (length_leBytes 4 _).le, leValue_leBytes, leValue_leBytes,
    Nat.mod_eq_of_lt (by omega), Nat.mod_eq_of_lt (by omega)]

theorem ne_zero_of_printable {c : UInt8} (printable : 0x20 ≤ c ∧ c ≤ 0x7E) : c ≠ 0 := by
  rintro rfl
  exact absurd printable.1 (by decide)

theorem isValidCommand_filled {command : List UInt8} (printable : ∀ c ∈ command, 0x20 ≤ c ∧ c ≤ 0x7E) (n : Nat) :
    isValidCommand (command ++ List.replicate n 0) = true := by
  induction command with
  | nil => cases n <;> simp [isValidCommand, List.replicate_succ]
  | cons c rest ih =>
    have here := printable c List.mem_cons_self
    rw [List.cons_append, isValidCommand, if_neg (ne_zero_of_printable here), if_neg (by simpa using here)]
    exact ih fun c member => printable c (List.mem_cons_of_mem _ member)

end CMessageHeader

theorem nChecksum_lt (data : List UInt8) : nChecksum params data < 2 ^ 32 := by
  have bound := leValue_lt (Base58.checksum params.Hash data)
  simpa [Base58.checksum, nChecksum] using bound

theorem length_serialize_header (message : NetMessage) : (header params message).serialize.length = 24 := by
  simp [header, CMessageHeader.create, CMessageHeader.serialize]

theorem length_frame (message : NetMessage) : (frame params message).length = 24 + message.2.length := by
  rw [frame, List.length_append, length_serialize_header]

theorem endMessage_frame (command data : List UInt8) :
    endMessage params ((CMessageHeader.create params.network command 0).serialize ++ data) = frame params (command, data) := by
  obtain ⟨front, isFront⟩ : ∃ front, front = params.network.messageStart ++ strncpy command 12 := ⟨_, rfl⟩
  have place : front.length = 16 := by simp [isFront]
  have opened : (CMessageHeader.create params.network command 0).serialize ++ data = front ++ (leBytes 4 0 ++ (leBytes 4 0 ++ data)) := by
    simp [isFront, CMessageHeader.create, CMessageHeader.serialize]
  have size : (front ++ (leBytes 4 0 ++ (leBytes 4 0 ++ data))).length - 24 = data.length := by
    simp [place]
    omega
  have behind : (front ++ leBytes 4 data.length ++ leBytes 4 0 ++ data).drop 24 = data := List.drop_left' (by simp [place])
  have place' : (front ++ leBytes 4 data.length).length = 20 := by simp [place]
  have summed := overwrite_inside place' (leBytes 4 0) (leBytes 4 (nChecksum params data)) data rfl
  simp only [List.append_assoc] at behind summed
  simp only [endMessage, opened, size, overwrite_inside place (leBytes 4 0) (leBytes 4 data.length) _ rfl, behind, summed]
  simp [isFront, frame, header, CMessageHeader.create, CMessageHeader.serialize]

theorem getCommand_header (sendable : Sendable message) : (header params message).getCommand = message.1 := by
  simp only [CMessageHeader.getCommand, header, CMessageHeader.create, strncpy_short sendable.command]
  rw [List.takeWhile_append_of_pos fun c member => decide_eq_true (CMessageHeader.ne_zero_of_printable (sendable.printable c member))]
  cases 12 - message.1.length <;> simp [List.replicate_succ]

theorem isValid_header (sendable : Sendable message) : (header params message).isValid params.network = true := by
  have size : message.2.length ≤ MAX_SIZE := Nat.le_trans sendable.data (by decide)
  simp only [CMessageHeader.isValid, header, CMessageHeader.create, strncpy_short sendable.command,
    CMessageHeader.isValidCommand_filled sendable.printable, size, decide_true, Bool.and_self]

end Transport

end SchillingCoin
