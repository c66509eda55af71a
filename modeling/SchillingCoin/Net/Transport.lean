import Mathlib.Data.List.Forall2
import SchillingCoin.Lib.Run
import SchillingCoin.Net.MessageHeader

/-!
Messages from one peer to another: `PushMessage` and `SocketSendData` at the sender, the bytes between them in their order, and
`ReceiveMsgBytes` and `ProcessMessages` at the receiver, in `net.cpp`, `net.h` and `main.cpp`. A step is `none` where an assertion fails
or the receiver gives the connection up.
-/

namespace SchillingCoin.Transport

/-- What `CNode` keeps of the messages to send. -/
structure SendQueue where
  vSendMsg : List (List UInt8) := []
  nSendSize : Nat := 0
  nSendOffset : Nat := 0

/-- A message that is being received. -/
structure CNetMessage where
  in_data : Bool := false
  hdrbuf : List UInt8 := List.replicate 24 0
  hdr : CMessageHeader
  nHdrPos : Nat := 0
  vRecv : List UInt8 := []
  nDataPos : Nat := 0

section

variable (params : WireParams)

namespace SendQueue

/-- The loop of `SocketSendData`. For each call of `send` there is how many bytes the socket takes at most, and none once these are
used up. Returned are the bytes that went out. -/
def sendLoop : List (List UInt8) → Nat → Nat → List Nat → Option (SendQueue × List UInt8)
  | [], nSendSize, nSendOffset, _ => if nSendOffset = 0 ∧ nSendSize = 0 then some ({}, []) else none
  | data :: rest, nSendSize, nSendOffset, sends =>
    if data.length ≤ nSendOffset then none
    else
      let nBytes := min (sends.headD 0) (data.length - nSendOffset)
      if nSendOffset + nBytes = data.length then
        (sendLoop rest (nSendSize - data.length) 0 sends.tail).map fun sent => (sent.1, data.drop nSendOffset ++ sent.2)
      else some (⟨data :: rest, nSendSize, nSendOffset + nBytes⟩, (data.drop nSendOffset).take nBytes)

def socketSendData (q : SendQueue) (sends : List Nat) : Option (SendQueue × List UInt8) :=
  sendLoop q.vSendMsg q.nSendSize q.nSendOffset sends

/-- `PushMessage`, with the optimistic write into an empty queue. -/
def pushMessage (q : SendQueue) (pszCommand data : List UInt8) (sends : List Nat) : Option (SendQueue × List UInt8) :=
  let ssSend := endMessage params ((CMessageHeader.create params.network pszCommand 0).serialize ++ data)
  let q' : SendQueue := { q with vSendMsg := q.vSendMsg ++ [ssSend], nSendSize := q.nSendSize + ssSend.length }
  if q.vSendMsg = [] then q'.socketSendData sends else some (q', [])

end SendQueue

namespace CNetMessage

def create (network : Network) : CNetMessage := { hdr := CMessageHeader.create network [] (2 ^ 32 - 1) }

variable (msg : CNetMessage) (pch : List UInt8)

def complete : Bool := msg.in_data && decide (msg.hdr.nMessageSize = msg.nDataPos)

def readHeader : Option (CNetMessage × Nat) :=
  let nCopy := min (24 - msg.nHdrPos) pch.length
  let hdrbuf := overwrite msg.hdrbuf msg.nHdrPos (pch.take nCopy)
  let msg := { msg with hdrbuf, nHdrPos := msg.nHdrPos + nCopy }
  if msg.nHdrPos < 24 then some (msg, nCopy)
  else
    let hdr := CMessageHeader.unserialize hdrbuf
    if hdr.nMessageSize > MAX_SIZE then none else some ({ msg with hdr, in_data := true }, nCopy)

/-- `vRecv` grows by up to 256 KiB ahead of the data. -/
def readData : CNetMessage × Nat :=
  let nCopy := min (msg.hdr.nMessageSize - msg.nDataPos) pch.length
  let vRecv := if msg.vRecv.length < msg.nDataPos + nCopy then
      msg.vRecv.rightpad (min msg.hdr.nMessageSize (msg.nDataPos + nCopy + 256 * 1024)) 0
    else msg.vRecv
  ({ msg with vRecv := overwrite vRecv msg.nDataPos (pch.take nCopy), nDataPos := msg.nDataPos + nCopy }, nCopy)

/-- What a turn of `ReceiveMsgBytes` does with the message at the back. -/
def absorb : Option (CNetMessage × Nat) := do
  let (msg, handled) ← if msg.in_data then some (msg.readData pch) else msg.readHeader pch
  if msg.in_data ∧ msg.hdr.nMessageSize > MAX_PROTOCOL_MESSAGE_LENGTH then none else some (msg, handled)

/-- The incomplete message at the back, or else a new one, behind the others. -/
def current (network : Network) (vRecvMsg : List CNetMessage) : List CNetMessage × CNetMessage :=
  match vRecvMsg.getLast? with
  | none => (vRecvMsg, create network)
  | some msg => if msg.complete then (vRecvMsg, create network) else (vRecvMsg.dropLast, msg)

/-- `ReceiveMsgBytes`, for a number of turns. -/
def receiveMsgBytes : Nat → List CNetMessage → List UInt8 → Option (List CNetMessage)
  | _, vRecvMsg, [] => some vRecvMsg
  | 0, _, _ :: _ => none
  | turns + 1, vRecvMsg, c :: pch => do
    let (msg, handled) ← (current params.network vRecvMsg).2.absorb (c :: pch)
    receiveMsgBytes turns ((current params.network vRecvMsg).1 ++ [msg]) ((c :: pch).drop handled)

/-- `ProcessMessages`: whether the peer is kept, the command and the data given to `ProcessMessage`, and what is left. -/
def processMessages : List CNetMessage → Bool × Option NetMessage × List CNetMessage
  | [] => (true, none, [])
  | msg :: rest =>
    if !msg.complete then (true, none, msg :: rest)
    else if msg.hdr.pchMessageStart ≠ params.network.messageStart then (false, none, rest)
    else if !msg.hdr.isValid params.network then processMessages rest
    else if nChecksum params (msg.vRecv.take msg.hdr.nMessageSize) ≠ msg.hdr.nChecksum then processMessages rest
    else (true, some (msg.hdr.getCommand, msg.vRecv), rest)

end CNetMessage

/-- One direction of a connection. -/
structure Link where
  sender : SendQueue := {}
  wire : List UInt8 := []
  vRecvMsg : List CNetMessage := []

namespace Link

inductive Op where
  | push (pszCommand data : List UInt8) (sends : List Nat)
  | send (sends : List Nat)
  | receive (nBytes : Nat)
  | process

def Op.pushed : Op → Option NetMessage
  | .push pszCommand data _ => some (pszCommand, data)
  | _ => none

/-- A step, and the message that `ProcessMessage` is given in it. -/
def step (link : Link) : Op → Option (Option NetMessage × Link)
  | .push pszCommand data sends => (link.sender.pushMessage params pszCommand data sends).map fun sent =>
    (none, { link with sender := sent.1, wire := link.wire ++ sent.2 })
  | .send sends => (link.sender.socketSendData sends).map fun sent =>
    (none, { link with sender := sent.1, wire := link.wire ++ sent.2 })
  | .receive nBytes => (CNetMessage.receiveMsgBytes params nBytes link.vRecvMsg (link.wire.take nBytes)).map fun vRecvMsg =>
    (none, { link with wire := link.wire.drop nBytes, vRecvMsg })
  | .process =>
    let (fOk, message, vRecvMsg) := CNetMessage.processMessages params link.vRecvMsg
    if fOk then some (message, { link with vRecvMsg }) else none

end Link

/-- Of the frame of a message this many bytes were received. -/
inductive Reading (message : NetMessage) (k : Nat) (msg : CNetMessage) : Prop
  | inHeader (counted : msg.nHdrPos = k) (early : k < 24) (waiting : msg.in_data = false) (size : msg.hdrbuf.length = 24)
      (same : msg.hdrbuf.take k = (frame params message).take k) (place : msg.nDataPos = 0) (fresh : msg.vRecv = [])
  | inData (counted : 24 + msg.nDataPos = k) (started : msg.in_data = true) (hdr : msg.hdr = header params message)
      (inside : msg.nDataPos ≤ msg.vRecv.length) (bound : msg.vRecv.length ≤ message.2.length)
      (same : msg.vRecv.take msg.nDataPos = message.2.take msg.nDataPos)

def Whole (message : NetMessage) : CNetMessage → Prop := Reading params message (24 + message.2.length)

/-- Bytes that are given when so many were received are those that follow in the frame. -/
def Continues (message : NetMessage) (k : Nat) (pch : List UInt8) : Prop :=
  pch ≠ [] ∧ ∀ n ≤ pch.length, k + n ≤ 24 + message.2.length → pch.take n = ((frame params message).drop k).take n

/-- What a turn takes of the bytes given. -/
structure Absorbed (message : NetMessage) (k : Nat) (pch : List UInt8) (msg : CNetMessage) (handled : Nat) : Prop where
  some : 0 < handled
  given : handled ≤ pch.length
  short : k + handled ≤ 24 + message.2.length
  reading : Reading params message (k + handled) msg

/-- What stands behind the messages that were received whole, and the stream from there on. -/
inductive Follows : List NetMessage → List UInt8 → List CNetMessage → Prop
  | between {rest : List NetMessage} : Follows rest (rest.flatMap (frame params)) []
  | within {message : NetMessage} {rest : List NetMessage} {k : Nat} {msg : CNetMessage} (short : 0 < k ∧ k < 24 + message.2.length)
      (reading : Reading params message k msg) :
      Follows (message :: rest) ((frame params message).drop k ++ rest.flatMap (frame params)) [msg]

/-- These messages were received whole and not processed yet, and the stream goes on with those that follow. -/
def Holds (got rest : List NetMessage) (stream : List UInt8) (vRecvMsg : List CNetMessage) : Prop :=
  ∃ whole part, vRecvMsg = whole ++ part ∧ List.Forall₂ (Whole params) got whole ∧ Follows params rest stream part

end

section Overwrite

variable {buffer pch : List UInt8} {k n : Nat}

theorem length_overwrite (pch : List UInt8) (fits : k + n ≤ buffer.length) : (overwrite buffer k (pch.take n)).length = buffer.length := by
  simp only [overwrite, List.length_append, List.length_take, List.length_drop]
  omega

theorem take_overwrite {target : List UInt8} (fits : k ≤ buffer.length) (given : n ≤ pch.length) (same : buffer.take k = target.take k)
    (next : pch.take n = (target.drop k).take n) : (overwrite buffer k (pch.take n)).take (k + n) = target.take (k + n) := by
  have front : (buffer.take k ++ pch.take n).length = k + n := by
    rw [List.length_append, List.length_take, List.length_take, Nat.min_eq_left fits, Nat.min_eq_left given]
  rw [overwrite, ← List.append_assoc, List.take_left' front, same, next, ← List.take_add]

end Overwrite

variable {params : WireParams} {message : NetMessage}

namespace Reading

variable {k : Nat} {msg : CNetMessage} {pch : List UInt8}

theorem create : Reading params message 0 (CNetMessage.create params.network) := inHeader rfl (by decide) rfl rfl rfl rfl rfl

theorem complete_iff (reading : Reading params message k msg) : msg.complete = true ↔ k = 24 + message.2.length := by
  cases reading with
  | inHeader counted early waiting =>
    simp only [CNetMessage.complete, waiting, Bool.false_and]
    exact iff_of_false Bool.false_ne_true (by omega)
  | inData counted started hdr =>
    have size : (header params message).nMessageSize = message.2.length := rfl
    simp only [CNetMessage.complete, started, hdr, size, Bool.true_and, decide_eq_true_iff]
    omega

theorem readHeader (sendable : Sendable message) (reading : Reading params message k msg) (waiting : msg.in_data = false)
    (next : Continues params message k pch) :
    ∃ msg' handled, msg.readHeader pch = some (msg', handled) ∧ Absorbed params message k pch msg' handled := by
  obtain ⟨given, agree⟩ := next
  cases reading with
  | inData counted started => exact absurd (waiting.symm.trans started) Bool.false_ne_true
  | inHeader counted early _ size same place fresh =>
    have filled := List.length_pos_iff.mpr given
    generalize copied : min (24 - k) pch.length = nCopy
    have size' := (length_overwrite pch (show k + nCopy ≤ msg.hdrbuf.length by omega)).trans size
    have same' := take_overwrite (show k ≤ msg.hdrbuf.length by omega) (by omega) same (agree nCopy (by omega) (by omega))
    simp only [CNetMessage.readHeader, counted, copied]
    by_cases partly : k + nCopy < 24
    · rw [if_pos partly]
      exact ⟨_, _, rfl, by omega, by omega, by omega, inHeader rfl partly waiting size' same' place fresh⟩
    · have whole : k + nCopy = 24 := by omega
      rw [whole, List.take_of_length_le size'.le, frame, List.take_left' (length_serialize_header message)] at same'
      have read : CMessageHeader.unserialize (header params message).serialize = header params message := by
        have limit := sendable.data
        unfold MAX_PROTOCOL_MESSAGE_LENGTH at limit
        apply CMessageHeader.unserialize_bytes params.network.length_messageStart (length_strncpy _ _)
        · show message.2.length < 2 ^ 32
          omega
        · exact nChecksum_lt message.2
      have accepted : ¬(header params message).nMessageSize > MAX_SIZE :=
        Nat.not_lt.mpr (Nat.le_trans sendable.data (by decide))
      rw [if_neg partly, same', read, if_neg accepted]
      exact ⟨_, _, rfl, by omega, by omega, by omega,
        inData (by simp [place, whole]) rfl rfl (by simp [place]) (by simp [fresh]) (by simp [place])⟩

theorem readData (reading : Reading params message k msg) (started : msg.in_data = true) (short : k < 24 + message.2.length)
    (next : Continues params message k pch) : Absorbed params message k pch (msg.readData pch).1 (msg.readData pch).2 := by
  obtain ⟨given, agree⟩ := next
  cases reading with
  | inHeader counted early waiting => exact absurd (waiting.symm.trans started) Bool.false_ne_true
  | inData counted _ hdr inside bound same =>
    have filled := List.length_pos_iff.mpr given
    have size : msg.hdr.nMessageSize = message.2.length := congrArg CMessageHeader.nMessageSize hdr
    generalize copied : min (message.2.length - msg.nDataPos) pch.length = nCopy
    simp only [CNetMessage.readData, size, copied]
    generalize grown : (if msg.vRecv.length < msg.nDataPos + nCopy then
      msg.vRecv.rightpad (min message.2.length (msg.nDataPos + nCopy + 256 * 1024)) 0 else msg.vRecv) = vRecv
    have kept : msg.nDataPos + nCopy ≤ vRecv.length ∧ vRecv.length ≤ message.2.length ∧
        vRecv.take msg.nDataPos = message.2.take msg.nDataPos := by
      split at grown <;> subst grown
      · rw [List.length_rightpad, List.rightpad, List.take_append_of_le_length inside]
        exact ⟨by omega, by omega, same⟩
      · exact ⟨by omega, bound, same⟩
    have size' := length_overwrite pch kept.1
    have behind : (frame params message).drop k = message.2.drop msg.nDataPos := by
      rw [frame, ← counted, ← List.drop_drop, List.drop_left' (length_serialize_header message)]
    have same' := take_overwrite (show msg.nDataPos ≤ vRecv.length by omega) (show nCopy ≤ pch.length by omega) kept.2.2
      (behind ▸ agree nCopy (by omega) (by omega))
    exact ⟨by omega, by omega, by omega, inData (show 24 + (msg.nDataPos + nCopy) = _ by omega) started hdr
      (kept.1.trans size'.ge) (size'.le.trans kept.2.1) same'⟩

theorem absorb (sendable : Sendable message) (reading : Reading params message k msg) (short : k < 24 + message.2.length)
    (next : Continues params message k pch) :
    ∃ msg' handled, msg.absorb pch = some (msg', handled) ∧ Absorbed params message k pch msg' handled := by
  have accepted : ∀ {k' msg'}, Reading params message k' msg' →
      ¬(msg'.in_data = true ∧ msg'.hdr.nMessageSize > MAX_PROTOCOL_MESSAGE_LENGTH) := by
    intro k' msg' read
    cases read with
    | inHeader counted early waiting => simp [waiting]
    | inData counted started hdr =>
      rw [hdr]
      exact fun long => absurd long.2 (Nat.not_lt.mpr sendable.data)
  unfold CNetMessage.absorb
  cases started : msg.in_data with
  | false =>
    obtain ⟨msg', handled, read, step⟩ := readHeader sendable reading started next
    refine ⟨msg', handled, ?_, step⟩
    simp only [Bool.false_eq_true, if_false, read, Option.bind_eq_bind, Option.bind_some, if_neg (accepted step.reading)]
  | true =>
    have step := readData reading started short next
    refine ⟨_, _, ?_, step⟩
    simp only [if_true, Option.bind_eq_bind, Option.bind_some, if_neg (accepted step.reading)]

theorem vRecv_of_whole (reading : Whole params message msg) : msg.vRecv = message.2 ∧ msg.hdr = header params message := by
  cases reading with
  | inHeader counted early => omega
  | inData counted started hdr inside bound same =>
    have all : msg.nDataPos = message.2.length := by omega
    rw [all, List.take_of_length_le bound, List.take_length] at same
    exact ⟨same, hdr⟩

end Reading

namespace Holds

variable {got rest : List NetMessage} {vRecvMsg : List CNetMessage} {stream pch later : List UInt8}

theorem more (holds : Holds params got rest stream vRecvMsg) (message : NetMessage) :
    Holds params got (rest ++ [message]) (stream ++ frame params message) vRecvMsg := by
  have behind : ∀ l : List NetMessage, l.flatMap (frame params) ++ frame params message = (l ++ [message]).flatMap (frame params) := by
    simp
  obtain ⟨whole, part, received, all, follows⟩ := holds
  refine ⟨whole, part, received, all, ?_⟩
  cases follows with
  | between =>
    rw [behind]
    exact .between
  | within short reading =>
    rw [List.append_assoc, behind]
    exact .within short reading

theorem nothing (holds : Holds params got rest [] []) : got ++ rest = [] := by
  obtain ⟨whole, part, received, all, follows⟩ := holds
  obtain ⟨rfl, rfl⟩ := List.append_eq_nil_iff.mp received.symm
  cases all
  cases rest with
  | nil => rfl
  | cons message rest =>
    generalize sent : [] = stream at follows
    cases follows
    have length := congrArg List.length sent
    rw [List.flatMap_cons, List.length_append, length_frame, List.length_nil] at length
    omega

theorem current (holds : Holds params got (message :: rest) stream vRecvMsg) :
    List.Forall₂ (Whole params) got (CNetMessage.current params.network vRecvMsg).1 ∧
      ∃ k < 24 + message.2.length, Reading params message k (CNetMessage.current params.network vRecvMsg).2 ∧
        stream = (frame params message).drop k ++ rest.flatMap (frame params) := by
  obtain ⟨whole, part, rfl, all, follows⟩ := holds
  unfold CNetMessage.current
  cases follows with
  | between =>
    have complete : ∀ msg ∈ whole, msg.complete = true := by
      induction all with
      | nil => exact fun msg member => absurd member List.not_mem_nil
      | cons head _ ih => exact List.forall_mem_cons.mpr ⟨(Reading.complete_iff head).mpr rfl, ih⟩
    rw [List.append_nil]
    cases last : whole.getLast? with
    | none => exact ⟨all, 0, by omega, .create, rfl⟩
    | some msg =>
      simp only [if_pos (complete msg (List.mem_of_getLast? last))]
      exact ⟨all, 0, by omega, .create, rfl⟩
  | within short reading =>
    simp only [List.getLast?_concat, if_neg (fun done => absurd (reading.complete_iff.mp done) (by omega)), List.dropLast_concat]
    exact ⟨all, _, short.2, reading, rfl⟩

/-- By induction on the turns: each of them takes a byte at least. -/
theorem receive (sendable : ∀ message ∈ rest, Sendable message) (holds : Holds params got rest (pch ++ later) vRecvMsg)
    (enough : pch.length ≤ turns) :
    ∃ got' rest' vRecvMsg', CNetMessage.receiveMsgBytes params turns vRecvMsg pch = some vRecvMsg' ∧
      Holds params got' rest' later vRecvMsg' ∧ got' ++ rest' = got ++ rest := by
  induction turns generalizing got rest vRecvMsg pch with
  | zero =>
    obtain rfl := List.length_eq_zero_iff.mp (Nat.le_zero.mp enough)
    exact ⟨got, rest, vRecvMsg, rfl, holds, rfl⟩
  | succ turns ih =>
    cases pch with
    | nil => exact ⟨got, rest, vRecvMsg, rfl, holds, rfl⟩
    | cons c pch =>
      cases rest with
      | nil =>
        obtain ⟨whole, part, _, _, follows⟩ := holds
        cases follows
      | cons message rest =>
        obtain ⟨all, k, short, reading, stream⟩ := holds.current
        have left : ((frame params message).drop k).length = 24 + message.2.length - k := by rw [List.length_drop, length_frame]
        have next : Continues params message k (c :: pch) := by
          refine ⟨List.cons_ne_nil c pch, fun n given fits => ?_⟩
          have same := congrArg (List.take n) stream
          rwa [List.take_append_of_le_length given, List.take_append_of_le_length (by omega)] at same
        obtain ⟨msg, handled, absorbed, taken, given, fits, reading'⟩ := reading.absorb (sendable message List.mem_cons_self) short next
        have behind := congrArg (List.drop handled) stream
        rw [List.drop_append_of_le_length given, List.drop_append_of_le_length (by omega), List.drop_drop] at behind
        have fewer : ((c :: pch).drop handled).length ≤ turns := by
          rw [List.length_drop]
          omega
        rw [CNetMessage.receiveMsgBytes, absorbed]
        by_cases whole : k + handled = 24 + message.2.length
        · rw [whole] at behind reading'
          rw [List.drop_of_length_le (length_frame message).le, List.nil_append] at behind
          have all' : List.Forall₂ (Whole params) (got ++ [message]) _ := List.rel_append all (.cons reading' .nil)
          obtain ⟨got', rest', vRecvMsg', received, holds', same⟩ :=
            ih (fun message member => sendable message (List.mem_cons_of_mem _ member))
              ⟨_, [], (List.append_nil _).symm, all', by rw [behind]; exact .between⟩ fewer
          exact ⟨got', rest', vRecvMsg', received, holds', same.trans (by simp)⟩
        · exact ih sendable ⟨_, [msg], rfl, all, behind ▸ .within ⟨by omega, by omega⟩ reading'⟩ fewer

theorem process (sendable : ∀ message ∈ got, Sendable message) (holds : Holds params got rest stream vRecvMsg) :
    ∃ vRecvMsg', CNetMessage.processMessages params vRecvMsg = (true, got.head?, vRecvMsg') ∧
      Holds params got.tail rest stream vRecvMsg' := by
  obtain ⟨whole, part, rfl, all, follows⟩ := holds
  cases all with
  | nil =>
    refine ⟨part, ?_, [], part, rfl, .nil, follows⟩
    cases follows with
    | between => rfl
    | within short reading =>
      have waits : _ ≠ true := fun done => absurd (reading.complete_iff.mp done) (by omega)
      simp [CNetMessage.processMessages, waits]
  | @cons message msg _ others reading all =>
    -- The first message is complete and passes every check.
    refine ⟨others ++ part, ?_, others, part, rfl, all, follows⟩
    have known := sendable message List.mem_cons_self
    obtain ⟨data, hdr⟩ := Reading.vRecv_of_whole reading
    have size : (header params message).nMessageSize = message.2.length := rfl
    have sum : (header params message).nChecksum = nChecksum params message.2 := rfl
    have start : (header params message).pchMessageStart = params.network.messageStart := rfl
    simp [CNetMessage.processMessages, Reading.complete_iff reading, data, hdr, size, sum, start, isValid_header known,
      getCommand_header known]

end Holds

namespace SendQueue

/-- The bytes that are not sent yet. -/
def unsent (q : SendQueue) : List UInt8 := q.vSendMsg.flatten.drop q.nSendOffset

/-- What the assertions of `SocketSendData` rest on. -/
structure Ordered (q : SendQueue) : Prop where
  size : q.nSendSize = q.vSendMsg.flatten.length
  filled : ∀ data ∈ q.vSendMsg, 0 < data.length
  offset : q.nSendOffset < (q.vSendMsg.headD [0]).length

variable {q : SendQueue} {data : List UInt8} {rest : List (List UInt8)} {nSendSize nSendOffset : Nat}

theorem unsent_cons (inside : nSendOffset ≤ data.length) :
    unsent ⟨data :: rest, nSendSize, nSendOffset⟩ = data.drop nSendOffset ++ rest.flatten := List.drop_append_of_le_length inside

theorem Ordered.behind (ordered : Ordered ⟨data :: rest, nSendSize, nSendOffset⟩) : Ordered ⟨rest, nSendSize - data.length, 0⟩ := by
  have others := fun d member => ordered.filled d (List.mem_cons_of_mem _ member)
  have size : nSendSize = (data ++ rest.flatten).length := ordered.size
  rw [List.length_append] at size
  refine ⟨show nSendSize - data.length = rest.flatten.length by omega, others, ?_⟩
  cases rest with
  | nil => exact Nat.one_pos
  | cons next rest => exact others next List.mem_cons_self

theorem socketSendData_ordered (ordered : q.Ordered) (sends : List Nat) :
    ∃ q' bytes, q.socketSendData sends = some (q', bytes) ∧ q'.Ordered ∧ bytes ++ q'.unsent = q.unsent := by
  obtain ⟨vSendMsg, nSendSize, nSendOffset⟩ := q
  induction vSendMsg generalizing nSendSize nSendOffset sends with
  | nil =>
    obtain rfl : nSendOffset = 0 := Nat.lt_one_iff.mp ordered.offset
    obtain rfl : nSendSize = 0 := ordered.size
    exact ⟨{}, [], rfl, ordered, rfl⟩
  | cons data rest ih =>
    have inside : nSendOffset < data.length := ordered.offset
    simp only [socketSendData, sendLoop, if_neg (Nat.not_le.mpr inside), unsent_cons inside.le]
    generalize taken : min (sends.headD 0) (data.length - nSendOffset) = nBytes
    by_cases whole : nSendOffset + nBytes = data.length
    · obtain ⟨q', bytes, sent, ordered', same⟩ := ih sends.tail _ _ ordered.behind
      refine ⟨q', data.drop nSendOffset ++ bytes, ?_, ordered', ?_⟩
      · rw [if_pos whole, show sendLoop rest _ 0 _ = _ from sent]
        rfl
      · rw [List.append_assoc, same]
        rfl
    · have short : nSendOffset + nBytes < data.length := by omega
      refine ⟨_, _, if_neg whole, ⟨ordered.size, ordered.filled, short⟩, ?_⟩
      rw [unsent_cons short.le, ← List.drop_drop, ← List.append_assoc, List.take_append_drop]

theorem pushMessage_ordered (params : WireParams) (ordered : q.Ordered) (message : NetMessage) (sends : List Nat) :
    ∃ q' bytes, q.pushMessage params message.1 message.2 sends = some (q', bytes) ∧ q'.Ordered ∧
      bytes ++ q'.unsent = q.unsent ++ frame params message := by
  obtain ⟨vSendMsg, nSendSize, nSendOffset⟩ := q
  have filled : 0 < (frame params message).length := by
    rw [length_frame]
    omega
  have all : ∀ data ∈ vSendMsg ++ [frame params message], 0 < data.length :=
    List.forall_mem_append.mpr ⟨ordered.filled, List.forall_mem_singleton.mpr filled⟩
  have size : nSendSize + (frame params message).length = (vSendMsg ++ [frame params message]).flatten.length := by
    simp [show nSendSize = _ from ordered.size]
  rw [pushMessage, endMessage_frame]
  cases vSendMsg with
  | nil =>
    obtain rfl : nSendOffset = 0 := Nat.lt_one_iff.mp ordered.offset
    obtain ⟨q', bytes, sent, ordered', same⟩ := socketSendData_ordered (q := ⟨_, _, 0⟩) ⟨size, all, filled⟩ sends
    exact ⟨q', bytes, sent, ordered', same.trans (by simp [unsent])⟩
  | cons data rest =>
    have inside : nSendOffset < data.length := ordered.offset
    refine ⟨_, [], rfl, ⟨size, all, inside⟩, ?_⟩
    rw [unsent_cons inside.le, List.nil_append]
    exact (unsent_cons inside.le).trans (by simp)

end SendQueue

namespace Link

/-- What is pushed and not processed yet is received, or on its way in one piece. -/
structure Carries (params : WireParams) (link : Link) (waiting : List NetMessage) : Prop where
  sendable : ∀ message ∈ waiting, Sendable message
  ordered : link.sender.Ordered
  holds : ∃ got rest, waiting = got ++ rest ∧ Holds params got rest (link.wire ++ link.sender.unsent) link.vRecvMsg

theorem carries_step {waiting : List NetMessage} (carries : link.Carries params waiting) (op : Op)
    (sendable : ∀ message ∈ op.pushed, Sendable message) :
    ∃ message link' waiting', step params link op = some (message, link') ∧ link'.Carries params waiting' ∧
      waiting ++ op.pushed.toList = message.toList ++ waiting' := by
  obtain ⟨known, ordered, got, rest, rfl, holds⟩ := carries
  cases op with
  | push pszCommand data sends =>
    obtain ⟨q, bytes, sent, ordered', same⟩ := SendQueue.pushMessage_ordered params ordered (pszCommand, data) sends
    refine ⟨none, _, (got ++ rest) ++ [(pszCommand, data)], congrArg (Option.map _) sent, ⟨?_, ordered', got, _,
      List.append_assoc got rest _, ?_⟩, rfl⟩
    · exact List.forall_mem_append.mpr ⟨known, List.forall_mem_singleton.mpr (sendable _ rfl)⟩
    · show Holds params got _ (link.wire ++ bytes ++ q.unsent) _
      rw [List.append_assoc, same, ← List.append_assoc]
      exact holds.more _
  | send sends =>
    obtain ⟨q, bytes, sent, ordered', same⟩ := SendQueue.socketSendData_ordered ordered sends
    refine ⟨none, _, _, congrArg (Option.map _) sent, ⟨known, ordered', got, rest, rfl, ?_⟩, List.append_nil _⟩
    show Holds params got _ (link.wire ++ bytes ++ q.unsent) _
    rwa [List.append_assoc, same]
  | receive nBytes =>
    rw [← List.take_append_drop nBytes link.wire, List.append_assoc] at holds
    obtain ⟨got', rest', vRecvMsg, received, holds', same⟩ :=
      holds.receive (fun message member => known message (List.mem_append_right got member)) (List.length_take_le _ _)
    exact ⟨none, _, got ++ rest, congrArg (Option.map _) received, ⟨known, ordered, got', rest', same.symm, holds'⟩, List.append_nil _⟩
  | process =>
    obtain ⟨vRecvMsg, processed, holds'⟩ := holds.process fun message member => known message (List.mem_append_left rest member)
    have left : got ++ rest = got.head?.toList ++ (got.tail ++ rest) := by cases got <;> rfl
    rw [left] at known ⊢
    exact ⟨got.head?, { link with vRecvMsg }, got.tail ++ rest, by simp [step, processed],
      ⟨fun message member => known message (List.mem_append_right _ member), ordered, got.tail, rest, rfl, holds'⟩, List.append_nil _⟩

theorem carries_run {waiting : List NetMessage} (carries : link.Carries params waiting) (ops : List Op)
    (sendable : ∀ op ∈ ops, ∀ message ∈ op.pushed, Sendable message) :
    ∃ processed link' waiting', Run.run (step params) link ops = some (processed, link') ∧ link'.Carries params waiting' ∧
      waiting ++ ops.filterMap Op.pushed = processed.reduceOption ++ waiting' := by
  induction ops generalizing link waiting with
  | nil => exact ⟨[], link, waiting, rfl, carries, List.append_nil waiting⟩
  | cons op ops ih =>
    obtain ⟨message, next, left, stepped, carried, first⟩ := carries_step carries op (sendable op List.mem_cons_self)
    obtain ⟨processed, link', waiting', ran, carried', others⟩ := ih carried fun op member => sendable op (List.mem_cons_of_mem _ member)
    refine ⟨message :: processed, link', waiting', ?_, carried', ?_⟩
    · rw [Run.run, stepped]
      show (Run.run (step params) next ops >>= _) = _
      rw [ran]
      rfl
    · have split : (op :: ops).filterMap Op.pushed = op.pushed.toList ++ ops.filterMap Op.pushed := by
        cases pushed : op.pushed <;> simp [pushed]
      rw [split, ← List.append_assoc, first, List.append_assoc, others, ← List.append_assoc]
      congr 1
      cases message <;> rfl

/-- Whatever the pieces are that the socket takes and gives and in whatever order the peers do their part, no assertion fails, the
receiver keeps the connection, and it processes what was pushed, in the order of the calls, every message once and with its own
command and data. What is missing is still on its way. -/
theorem run_delivers (ops : List Op) (sendable : ∀ op ∈ ops, ∀ message ∈ op.pushed, Sendable message) :
    ∃ processed link waiting, Run.run (step params) {} ops = some (processed, link) ∧
      ops.filterMap Op.pushed = processed.reduceOption ++ waiting ∧
      (link.sender.vSendMsg = [] → link.wire = [] → link.vRecvMsg = [] → waiting = []) := by
  have start : Carries params {} [] :=
    ⟨List.forall_mem_nil _, ⟨rfl, List.forall_mem_nil _, Nat.one_pos⟩, [], [], rfl, [], [], rfl, .nil, .between⟩
  obtain ⟨processed, link, waiting, ran, ⟨_, _, got, rest, rfl, holds⟩, same⟩ := carries_run start ops sendable
  refine ⟨processed, link, got ++ rest, ran, same, fun queue wire received => ?_⟩
  rw [wire, SendQueue.unsent, queue, received, List.flatten_nil, List.drop_nil] at holds
  exact holds.nothing

def pingOps : List Op := [.push [112, 105, 110, 103] [1] [10], .send [15], .receive 7, .receive 18, .process]

theorem run_delivers_ping : ∃ processed link waiting, Run.run (step ⟨.main, fun _ => 0⟩) {} pingOps = some (processed, link) ∧
    pingOps.filterMap Op.pushed = processed.reduceOption ++ waiting ∧
    (link.sender.vSendMsg = [] → link.wire = [] → link.vRecvMsg = [] → waiting = []) := by
  apply run_delivers pingOps
  intro op member message pushed
  obtain rfl : message = ([112, 105, 110, 103], [1]) := by
    simp only [pingOps, List.mem_cons, List.not_mem_nil, or_false] at member
    rcases member with rfl | rfl | rfl | rfl | rfl <;> cases pushed
    rfl
  refine ⟨by decide, fun c member => ?_, by decide⟩
  simp only [List.mem_cons, List.not_mem_nil, or_false] at member
  rcases member with rfl | rfl | rfl | rfl <;> decide

end Link

end SchillingCoin.Transport
