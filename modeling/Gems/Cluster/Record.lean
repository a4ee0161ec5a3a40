import Gems.Catalog.Header
import Gems.Lib.Frame

set_option autoImplicit false

namespace Gems.Cluster

open Lib Catalog

def maxFrameLen : Nat := 64 * 1024 * 1024

def invalid (detail : String) : Fault := .raised (.invalidValue detail)

def checkFrameLen (payloadLen : Nat) (context : String) : Except Fault Unit :=
  if payloadLen > maxFrameLen then .error (invalid context) else .ok ()

inductive LogRecord where
  | insert (header : EntityHeader) (body : List UInt8)
  | delete (id : Tuid)
  deriving DecidableEq

namespace LogRecord

def insertTag : UInt8 := 1

def deleteTag : UInt8 := 2

-- A length is written as its low 32 bits.
def payload : LogRecord → List UInt8
  | insert header body =>
    [insertTag] ++ (littleEndian 4 header.encode.length ++ (header.encode ++
      (littleEndian 4 body.length ++ body)))
  | delete id => [deleteTag] ++ id.bytes

def encode (r : LogRecord) : List UInt8 := littleEndian 4 r.payload.length ++ r.payload

def truncated : Fault := invalid "log record payload truncated"

def readPayload : Reader Fault LogRecord := do
  let tag ← Reader.byte (invalid "empty log record payload")
  if tag = insertTag then
    let headerLen ← Reader.number truncated 4
    let headerBytes ← Reader.take truncated headerLen
    let header ← Reader.ofExcept (EntityHeader.decode headerBytes)
    let bodyLen ← Reader.number truncated 4
    let body ← Reader.take truncated bodyLen
    return insert header body
  else if tag = deleteTag then
    let id ← Reader.take truncated tuidLen
    return delete (Tuid.fromBytes id)
  else Reader.fail (invalid "unknown log record type")

-- `none` when the buffer does not hold a complete record yet.
def decode (buf : List UInt8) : Except Fault (Option (LogRecord × Nat)) := do
  if buf.length < 4 then return none
  let payloadLen := ofLittleEndian (buf.take 4)
  checkFrameLen payloadLen "log record payload exceeds the maximum frame size"
  let totalLen := 4 + payloadLen
  if buf.length < totalLen then return none
  let (record, _) ← readPayload ((buf.drop 4).take payloadLen)
  return some (record, totalLen)

def stored : LogRecord → LogRecord
  | insert header body => insert header.truncated body
  | delete id => delete id

def TextsFit : LogRecord → Prop
  | insert header _ => header.TextsFit
  | delete _ => True

section RoundTrip

variable {r : LogRecord} {buf rest : List UInt8}

theorem reads_payload (fits : r.payload.length ≤ maxFrameLen) :
    Reader.Reads readPayload r.payload r.stored := by
  cases r with
  | insert header body =>
    have bodyLen : body.length < 256 ^ 4 := by
      simp only [payload, List.length_append] at fits
      have cap : maxFrameLen < 256 ^ 4 := by decide
      omega
    rw [readPayload, payload]
    refine .bind (.byte insertTag) ?_
    rw [if_pos rfl, EntityHeader.length_encode]
    refine .bind (.number (by decide)) (.bind (.take header.length_encode) ?_)
    have decoded := header.decode_encode []
    rw [List.append_nil] at decoded
    rw [decoded]
    exact .known (.bind (.number bodyLen) ((Reader.Reads.take rfl).result _))
  | delete id =>
    rw [readPayload, payload]
    refine .bind (.byte deleteTag) ?_
    rw [if_neg (by decide), if_pos rfl, stored]
    have bytes : Reader.Reads (Reader.take truncated tuidLen) _ _ := .take id.length_eq
    have whole := bytes.result fun bytes => delete (Tuid.fromBytes bytes)
    rwa [Tuid.fromBytes_bytes] at whole

theorem payload_length_lt (fits : r.payload.length ≤ maxFrameLen) : r.payload.length < 256 ^ 4 :=
  Nat.lt_of_le_of_lt fits (by decide)

theorem encode_eq : r.encode = framed r.payload := rfl

theorem decode_encode (fits : r.payload.length ≤ maxFrameLen) :
    decode (r.encode ++ rest) = .ok (some (r.stored, r.encode.length)) := by
  have size : (framed r.payload ++ rest).length = 4 + r.payload.length + rest.length := by simp
  have read := reads_payload fits []
  rw [List.append_nil] at read
  rw [encode_eq]
  unfold decode
  rw [if_neg (by omega)]
  simp only [framed_number (payload_length_lt fits), checkFrameLen, if_neg (Nat.not_lt.mpr fits),
    framed_body, read]
  rw [if_neg (by omega), length_framed]
  rfl

theorem decode_partial (fits : r.payload.length ≤ maxFrameLen) {written : Nat}
    (short : written < r.encode.length) : decode (r.encode.take written) = .ok none := by
  rw [encode_eq] at short ⊢
  have size : ((framed r.payload).take written).length = written := by
    rw [List.length_take]
    omega
  rw [length_framed] at short
  unfold decode
  by_cases header : written < 4
  · rw [if_pos (by omega)]
    rfl
  have number : ofLittleEndian (((framed r.payload).take written).take 4) = r.payload.length := by
    have whole : ofLittleEndian (((framed r.payload ++ []).take written).take 4) = r.payload.length :=
      framed_number_part (payload_length_lt fits) (Nat.le_of_not_lt header)
    rwa [List.append_nil] at whole
  rw [if_neg (by omega)]
  simp only [number, checkFrameLen, if_neg (Nat.not_lt.mpr fits)]
  rw [if_pos (by omega)]
  rfl

theorem stored_of_fit (fit : r.TextsFit) : r.stored = r := by
  cases r with
  | insert header body => rw [stored, EntityHeader.truncated_of_fit fit]
  | delete id => rfl

theorem streams (fits : r.payload.length ≤ maxFrameLen) : Streams decode r.encode r.stored :=
  .mk_take (fun _ => decode_encode fits) fun _ => decode_partial fits

theorem decode_consumes {consumed : Nat} (read : decode buf = .ok (some (r, consumed))) :
    4 ≤ consumed ∧ consumed ≤ buf.length := by
  unfold decode at read
  split at read
  · cases read
  next enough =>
    simp only [bind, Except.bind] at read
    split at read
    · cases read
    split at read
    · cases read
    next within =>
      split at read
      · cases read
      · cases read
        exact ⟨by omega, by omega⟩

end RoundTrip

end LogRecord

end Gems.Cluster
