import Gems.Cluster.Record
import Gems.Gossip.Core
import Gems.Hmac

set_option autoImplicit false

namespace Gems.Gossip

open Gems.Lib Gems.Cluster

namespace Wire

def pingTag : UInt8 := 1

def ackTag : UInt8 := 2

def encodeStatus : Status → UInt8
  | .alive => 0
  | .suspect => 1
  | .dead => 2

def decodeStatus (b : UInt8) : Except Fault Status :=
  match b.toNat with
  | 0 => .ok .alive
  | 1 => .ok .suspect
  | 2 => .ok .dead
  | _ => .error (invalid "unknown SWIM status byte")

def encodeItem (item : GossipItem) : List UInt8 :=
  littleEndian 4 item.member ++ ([encodeStatus item.status] ++ littleEndian 8 item.incarnation)

def encodePingOrAckBody (seq senderIncarnation : Nat) (gossip : List GossipItem) : List UInt8 :=
  littleEndian 4 seq ++ (littleEndian 8 senderIncarnation ++ (littleEndian 4 gossip.length ++
    gossip.flatMap encodeItem))

def encodeMessage : SwimMessage → List UInt8
  | .ping seq senderIncarnation gossip => [pingTag] ++ encodePingOrAckBody seq senderIncarnation gossip
  | .ack seq senderIncarnation gossip => [ackTag] ++ encodePingOrAckBody seq senderIncarnation gossip

def payload (envelope : Envelope) : List UInt8 :=
  littleEndian 4 envelope.from_ ++ (littleEndian 4 envelope.to_ ++ encodeMessage envelope.message)

def encode (envelope : Envelope) (secret : List UInt8) : List UInt8 :=
  littleEndian 4 (payload envelope).length ++
    (payload envelope ++ hmacSha256 secret (payload envelope))

def truncated : Fault := invalid "SWIM envelope truncated"

def readU8 : Reader Fault UInt8 := Reader.byte truncated

def readU32 : Reader Fault Nat := Reader.number truncated 4

def readU64 : Reader Fault Nat := Reader.number truncated 8

def readItems : Nat → Reader Fault (List GossipItem)
  | 0 => return []
  | count + 1 => do
    let member ← readU32
    let byte ← readU8
    let status ← Reader.ofExcept (decodeStatus byte)
    let incarnation ← readU64
    let rest ← readItems count
    return { member, status, incarnation } :: rest

def readPingOrAckBody : Reader Fault (Nat × Nat × List GossipItem) := do
  let seq ← readU32
  let senderIncarnation ← readU64
  let count ← readU32
  let left ← get
  if count > left.length / 13 then
    Reader.fail (invalid "SWIM gossip item count exceeds what the payload could hold")
  let gossip ← readItems count
  return (seq, senderIncarnation, gossip)

-- The tag is looked at after the body is read.
def readMessage : Reader Fault SwimMessage := do
  let tag ← readU8
  let (seq, senderIncarnation, gossip) ← readPingOrAckBody
  if tag = pingTag then return .ping seq senderIncarnation gossip
  else if tag = ackTag then return .ack seq senderIncarnation gossip
  else Reader.fail (invalid "unknown SWIM message tag")

def readEnvelope : Reader Fault Envelope := do
  let from_ ← readU32
  let to_ ← readU32
  let message ← readMessage
  return { from_, to_, message }

def decode (buf : List UInt8) (secret : List UInt8) : Except Fault (Option (Envelope × Nat)) := do
  if buf.length < 4 then return none
  let payloadLen := ofLittleEndian (buf.take 4)
  checkFrameLen payloadLen "SWIM envelope exceeds the maximum frame size"
  let totalLen := 4 + payloadLen + tagLen
  if buf.length < totalLen then return none
  let payload := (buf.drop 4).take payloadLen
  let receivedMac := (buf.drop (4 + payloadLen)).take tagLen
  if constantTimeEq (hmacSha256 secret payload) receivedMac = false then
    throw (invalid "SWIM envelope authentication tag mismatch")
  let (envelope, _) ← readEnvelope payload
  return some (envelope, totalLen)

-- The numbers are values of their types in the source.
structure Item.Typed (item : GossipItem) : Prop where
  member : item.member < 2 ^ 32
  incarnation : item.incarnation < 2 ^ 64

def SwimMessage.Typed : SwimMessage → Prop
  | .ping seq senderIncarnation gossip | .ack seq senderIncarnation gossip =>
    seq < 2 ^ 32 ∧ senderIncarnation < 2 ^ 64 ∧ ∀ item ∈ gossip, Item.Typed item

structure Typed (envelope : Envelope) : Prop where
  sender : envelope.from_ < 2 ^ 32
  receiver : envelope.to_ < 2 ^ 32
  message : SwimMessage.Typed envelope.message

section RoundTrip

variable {envelope : Envelope} {message : SwimMessage} {gossip : List GossipItem}
  {seq senderIncarnation n : Nat} {secret : List UInt8}

theorem decodeStatus_encodeStatus (status : Status) : decodeStatus (encodeStatus status) = .ok status := by
  cases status <;> rfl

theorem reads_items (typed : ∀ item ∈ gossip, Item.Typed item) :
    Reader.Reads (readItems gossip.length) (gossip.flatMap encodeItem) gossip := by
  induction gossip with
  | nil => exact .pure
  | cons item rest ih =>
    have ⟨member, incarnation⟩ := typed item List.mem_cons_self
    have later := ih fun i mem => typed i (List.mem_cons_of_mem _ mem)
    rw [List.flatMap_cons, encodeItem, List.append_assoc, List.append_assoc, List.length_cons, readItems]
    refine .bind (.number member) (.bind (.byte _) ?_)
    rw [decodeStatus_encodeStatus]
    exact .known (.bind (.number incarnation) (later.result _))

theorem length_encodeItems : (gossip.flatMap encodeItem).length = 13 * gossip.length := by
  induction gossip with
  | nil => rfl
  | cons item rest ih =>
    simp only [List.flatMap_cons, List.length_append, ih, encodeItem, length_littleEndian,
      List.length_cons, List.length_nil]
    omega

theorem reads_body (seqFits : seq < 2 ^ 32) (incarnationFits : senderIncarnation < 2 ^ 64)
    (typed : ∀ item ∈ gossip, Item.Typed item)
    (fits : (encodePingOrAckBody seq senderIncarnation gossip).length ≤ maxFrameLen) :
    Reader.Reads readPingOrAckBody (encodePingOrAckBody seq senderIncarnation gossip)
      (seq, senderIncarnation, gossip) := by
  have size : (gossip.flatMap encodeItem).length = _ := length_encodeItems
  have cap : maxFrameLen = 67108864 := rfl
  simp only [encodePingOrAckBody, List.length_append, length_littleEndian] at fits
  rw [readPingOrAckBody, encodePingOrAckBody]
  refine .bind (.number seqFits) (.bind (.number incarnationFits) (.bind (.number (by omega)) ?_))
  intro rest
  have room : ¬ gossip.length > (gossip.flatMap encodeItem ++ rest).length / 13 := by
    rw [List.length_append, size]
    omega
  have items : Reader.Reads (do
      let gossip ← readItems gossip.length
      return (seq, senderIncarnation, gossip)) _ (seq, senderIncarnation, gossip) :=
    (reads_items typed).result _
  refine Eq.trans ?_ (items rest)
  rw [Reader.bind_ok (a := gossip.flatMap encodeItem ++ rest) rfl, if_neg room]

theorem reads_message (typed : SwimMessage.Typed message)
    (fits : (encodeMessage message).length ≤ maxFrameLen) :
    Reader.Reads readMessage (encodeMessage message) message := by
  cases message with
  | ping seq senderIncarnation gossip =>
    obtain ⟨seqFits, incarnationFits, each⟩ := typed
    rw [encodeMessage, List.length_append] at fits
    have body := reads_body seqFits incarnationFits each (by omega)
    rw [readMessage, encodeMessage]
    exact .bind (.byte pingTag) (body.result fun (seq, senderIncarnation, gossip) =>
      SwimMessage.ping seq senderIncarnation gossip)
  | ack seq senderIncarnation gossip =>
    obtain ⟨seqFits, incarnationFits, each⟩ := typed
    rw [encodeMessage, List.length_append] at fits
    have body := reads_body seqFits incarnationFits each (by omega)
    rw [readMessage, encodeMessage]
    exact .bind (.byte ackTag) (body.result fun (seq, senderIncarnation, gossip) =>
      SwimMessage.ack seq senderIncarnation gossip)

theorem reads_envelope (typed : Typed envelope) (fits : (payload envelope).length ≤ maxFrameLen) :
    Reader.Reads readEnvelope (payload envelope) envelope := by
  have size : (payload envelope).length = 8 + (encodeMessage envelope.message).length := by
    simp only [payload, List.length_append, length_littleEndian]
    omega
  have message := reads_message typed.message (by omega)
  rw [readEnvelope, payload]
  exact .bind (.number typed.sender) (.bind (.number typed.receiver) (message.result _))

theorem encode_eq : encode envelope secret = framed (payload envelope) ++ hmacSha256 secret (payload envelope) := by
  rw [encode, framed, List.append_assoc]

theorem length_encode : (encode envelope secret).length = 4 + (payload envelope).length + tagLen := by
  rw [encode_eq, List.length_append, length_framed, length_hmacSha256]

theorem payload_length_lt (fits : (payload envelope).length ≤ maxFrameLen) :
    (payload envelope).length < 256 ^ 4 :=
  Nat.lt_of_le_of_lt fits (by decide)

theorem decode_encode (typed : Typed envelope) (fits : (payload envelope).length ≤ maxFrameLen)
    (rest : List UInt8) : decode (encode envelope secret ++ rest) secret =
      .ok (some (envelope, (encode envelope secret).length)) := by
  have size : (encode envelope secret).length = _ := length_encode
  have tag : (hmacSha256 secret (payload envelope) ++ rest).take tagLen =
      hmacSha256 secret (payload envelope) := List.take_left' (length_hmacSha256 _ _)
  have read := reads_envelope typed fits []
  rw [List.append_nil] at read
  have long : (encode envelope secret ++ rest).length = (encode envelope secret).length + rest.length :=
    List.length_append
  rw [encode_eq, List.append_assoc] at long ⊢
  rw [encode_eq] at size
  unfold decode
  rw [if_neg (by omega)]
  simp only [framed_number (payload_length_lt fits), framed_body, framed_rest, tag, checkFrameLen,
    if_neg (Nat.not_lt.mpr fits), constantTimeEq_refl, read]
  rw [if_neg (by omega), if_neg (by simp), size]
  rfl

theorem decode_partial (fits : (payload envelope).length ≤ maxFrameLen)
    (short : n < (encode envelope secret).length) :
    decode ((encode envelope secret).take n) secret = .ok none := by
  have size : ((encode envelope secret).take n).length = n := by
    rw [List.length_take]
    omega
  rw [length_encode] at short
  rw [encode_eq] at size ⊢
  unfold decode
  by_cases header : n < 4
  · rw [if_pos (by omega)]
    rfl
  rw [if_neg (by omega)]
  simp only [framed_number_part (payload_length_lt fits) (Nat.le_of_not_lt header), checkFrameLen,
    if_neg (Nat.not_lt.mpr fits)]
  rw [if_pos (by omega)]
  rfl

theorem streams (typed : Typed envelope) (fits : (payload envelope).length ≤ maxFrameLen) :
    Streams (decode · secret) (encode envelope secret) envelope :=
  .mk_take (decode_encode typed fits) fun _ => decode_partial fits

end RoundTrip

end Wire

end Gems.Gossip
