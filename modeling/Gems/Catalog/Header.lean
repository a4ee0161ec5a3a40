import Gems.Common
import Gems.Crc32c
import Gems.Lib.Reader
import Gems.Lib.Utf8
import Gems.Tuid

set_option autoImplicit false

namespace Gems.Catalog

open Lib

def magic : Nat := 0x47454d48

def formatVersion : Nat := 1

def nameMax : Nat := 63

def descriptionMax : Nat := 254

def encodedLen : Nat :=
  4 + 2 + 24 + 16 + 16 + 8 + 1 + nameMax + 2 + descriptionMax + 4 + 1 + 24 + 4 + 4 + 4

structure Uuid where
  bytes : List UInt8
  length_eq : bytes.length = 16
  deriving DecidableEq

def Uuid.fromBytes (bytes : List UInt8) : Uuid :=
  if h : bytes.length = 16 then ⟨bytes, h⟩ else ⟨List.replicate 16 0, List.length_replicate⟩

theorem Uuid.fromBytes_bytes (u : Uuid) : fromBytes u.bytes = u := dif_pos u.length_eq

structure EntityFlags where
  bits : UInt32
  deriving DecidableEq

inductive EntityKind where
  | data | entityAttribute | entityType | subject | layer | layerGroup | variantList | role | linkType
  | link | policy
  deriving DecidableEq, Repr

namespace EntityKind

def toU8 : EntityKind → UInt8
  | data => 0
  | entityAttribute => 1
  | entityType => 2
  | subject => 3
  | layer => 4
  | layerGroup => 5
  | variantList => 6
  | role => 7
  | linkType => 8
  | link => 9
  | policy => 10

def fromU8 (v : UInt8) : Except Fault EntityKind :=
  match v.toNat with
  | 0 => .ok data
  | 1 => .ok entityAttribute
  | 2 => .ok entityType
  | 3 => .ok subject
  | 4 => .ok layer
  | 5 => .ok layerGroup
  | 6 => .ok variantList
  | 7 => .ok role
  | 8 => .ok linkType
  | 9 => .ok link
  | 10 => .ok policy
  | _ => .error (.raised (.invalidValue "unknown entity kind"))

theorem fromU8_toU8 (k : EntityKind) : fromU8 k.toU8 = .ok k := by
  cases k <;> rfl

end EntityKind

structure EntityHeader where
  id : Tuid
  createdBy : Uuid
  modifiedBy : Uuid
  modifiedAtNs : Int64
  name : String
  description : String
  flags : EntityFlags
  entityKind : EntityKind
  schemaRef : Tuid
  bodyOffset : UInt32
  bodyLen : UInt32
  deriving DecidableEq

-- `placeholder` is random.
def EntityHeader.new (placeholder : Uuid) (id : Tuid) (name : String) (kind : EntityKind) (schemaRef : Tuid) :
    EntityHeader where
  id := id
  createdBy := placeholder
  modifiedBy := placeholder
  modifiedAtNs := id.createdAtNs.toInt64
  name := name
  description := ""
  flags := ⟨0⟩
  entityKind := kind
  schemaRef := schemaRef
  bodyOffset := 0
  bodyLen := 0

-- At most `maxBytes` bytes, without splitting a character.
def truncateUtf8 (s : String) (maxBytes : Nat) : List UInt8 :=
  let bytes := utf8 s
  if bytes.length ≤ maxBytes then bytes else bytes.take (charBoundary bytes maxBytes)

theorem truncateUtf8_eq (s : String) (maxBytes : Nat) : truncateUtf8 s maxBytes = utf8 (cut maxBytes s) := by
  rw [truncateUtf8]
  split
  next fits => rw [cut_of_fits fits]
  next =>
    rw [utf8_cut, utf8]
    exact take_charBoundary s.toList maxBytes

-- The text and zeroes up to the size of its field.
def textField (size : Nat) (text : List UInt8) : List UInt8 :=
  text ++ List.replicate (size - text.length) 0

namespace EntityHeader

def encodeFields (h : EntityHeader) : List UInt8 :=
  let name := truncateUtf8 h.name nameMax
  let desc := truncateUtf8 h.description descriptionMax
  (littleEndian 4 magic ++ littleEndian 2 formatVersion) ++ (h.id.bytes ++ (h.createdBy.bytes ++
    (h.modifiedBy.bytes ++ (littleEndian 8 h.modifiedAtNs.toUInt64.toNat ++
    (littleEndian 1 name.length ++ (textField nameMax name ++
    (littleEndian 2 desc.length ++ (textField descriptionMax desc ++
    (littleEndian 4 h.flags.bits.toNat ++ ([h.entityKind.toU8] ++ (h.schemaRef.bytes ++
    (littleEndian 4 h.bodyOffset.toNat ++ littleEndian 4 h.bodyLen.toNat))))))))))))

def encode (h : EntityHeader) : List UInt8 :=
  h.encodeFields ++ littleEndian 4 (crc32c h.encodeFields).toNat

def corrupt (detail : String) : Fault := .raised (.corruptPage detail)

-- The fields after magic and version; `buf` is long enough for all of them.
def readFields : Reader Fault EntityHeader := do
  let id ← Reader.take .panicked tuidLen
  let createdBy ← Reader.take .panicked 16
  let modifiedBy ← Reader.take .panicked 16
  let modifiedAtNs ← Reader.number .panicked 8
  let nameLen ← Reader.number .panicked 1
  if nameLen > nameMax then
    Reader.fail (corrupt "entity header name length exceeds the maximum")
  let name ← Reader.take .panicked nameMax
  let descLen ← Reader.number .panicked 2
  if descLen > descriptionMax then
    Reader.fail (corrupt "entity header description length exceeds the maximum")
  let description ← Reader.take .panicked descriptionMax
  let flags ← Reader.number .panicked 4
  let kind ← Reader.byte .panicked
  let entityKind ← Reader.ofExcept (EntityKind.fromU8 kind)
  let schemaRef ← Reader.take .panicked tuidLen
  let bodyOffset ← Reader.number .panicked 4
  let bodyLen ← Reader.number .panicked 4
  return {
    id := Tuid.fromBytes id
    createdBy := Uuid.fromBytes createdBy
    modifiedBy := Uuid.fromBytes modifiedBy
    modifiedAtNs := (UInt64.ofNat modifiedAtNs).toInt64
    name := fromUtf8Lossy (name.take nameLen)
    description := fromUtf8Lossy (description.take descLen)
    flags := ⟨UInt32.ofNat flags⟩
    entityKind
    schemaRef := Tuid.fromBytes schemaRef
    bodyOffset := UInt32.ofNat bodyOffset
    bodyLen := UInt32.ofNat bodyLen }

def decode (buf : List UInt8) : Except Fault EntityHeader :=
  if buf.length < encodedLen then .error (corrupt "entity header shorter than expected")
  else if ofLittleEndian (buf.take 4) ≠ magic then
    .error (corrupt "entity header magic mismatch")
  else
    let checksumAt := encodedLen - 4
    if ofLittleEndian ((buf.take encodedLen).drop checksumAt) ≠ (crc32c (buf.take checksumAt)).toNat then
      .error (corrupt "entity header checksum mismatch")
    else (readFields (buf.drop 6)).map Prod.fst

def truncated (h : EntityHeader) : EntityHeader :=
  { h with name := cut nameMax h.name, description := cut descriptionMax h.description }

structure TextsFit (h : EntityHeader) : Prop where
  name : (utf8 h.name).length ≤ nameMax
  description : (utf8 h.description).length ≤ descriptionMax

section RoundTrip

variable (h : EntityHeader)

theorem length_textField {size : Nat} {text : List UInt8} (fits : text.length ≤ size) :
    (textField size text).length = size := by
  rw [textField, List.length_append, List.length_replicate]
  omega

theorem length_truncateUtf8 (s : String) (max : Nat) : (truncateUtf8 s max).length ≤ max := by
  rw [truncateUtf8_eq]
  exact length_utf8_cut max s

theorem length_encodeFields : h.encodeFields.length = encodedLen - 4 := by
  simp only [encodeFields, List.length_append, length_littleEndian, h.id.length_eq,
    h.createdBy.length_eq, h.modifiedBy.length_eq, h.schemaRef.length_eq,
    length_textField (length_truncateUtf8 _ _), List.length_singleton]
  rfl

@[simp] theorem length_encode : h.encode.length = encodedLen := by
  rw [encode, List.length_append, length_encodeFields, length_littleEndian]
  rfl

theorem textField_take (size : Nat) (text : List UInt8) : (textField size text).take text.length = text :=
  List.take_left

theorem reads_fields : Reader.Reads readFields (h.encodeFields.drop 6) h.truncated := by
  have nameFits := length_truncateUtf8 h.name nameMax
  have descFits := length_truncateUtf8 h.description descriptionMax
  have skip : h.encodeFields.drop 6 = _ := List.drop_left' (by simp)
  rw [skip, readFields]
  refine .bind (.take h.id.length_eq) (.bind (.take h.createdBy.length_eq)
    (.bind (.take h.modifiedBy.length_eq) (.bind (.number h.modifiedAtNs.toUInt64.toNat_lt) ?_)))
  refine .bind (.number (Nat.lt_of_le_of_lt nameFits (by decide))) ?_
  rw [if_neg (Nat.not_lt.mpr nameFits)]
  refine .bind (.take (length_textField nameFits)) ?_
  refine .bind (.number (Nat.lt_of_le_of_lt descFits (by decide))) ?_
  rw [if_neg (Nat.not_lt.mpr descFits)]
  refine .bind (.take (length_textField descFits)) (.bind (.number h.flags.bits.toNat_lt) ?_)
  refine .bind (.byte h.entityKind.toU8) ?_
  rw [EntityKind.fromU8_toU8]
  refine .known (.bind (.take h.schemaRef.length_eq) (.bind (.number h.bodyOffset.toNat_lt) ?_))
  have last : Reader.Reads (Reader.number (.panicked : Fault) 4) _ h.bodyLen.toNat :=
    .number h.bodyLen.toNat_lt
  have whole := last.result fun bodyLen => { h.truncated with bodyLen := UInt32.ofNat bodyLen }
  simpa [truncated, textField_take, truncateUtf8_eq, fromUtf8Lossy_utf8, Tuid.fromBytes_bytes,
    Uuid.fromBytes_bytes] using whole

theorem decode_encode (rest : List UInt8) : decode (h.encode ++ rest) = .ok h.truncated := by
  have size := length_encode h
  have fields := length_encodeFields h
  have front : (h.encode ++ rest).take 4 = littleEndian 4 magic := by
    rw [encode, encodeFields]
    simp only [List.append_assoc]
    exact List.take_left' (length_littleEndian 4 magic)
  have body : (h.encode ++ rest).take (encodedLen - 4) = h.encodeFields := by
    rw [encode, List.append_assoc]
    exact List.take_left' fields
  have sum : ((h.encode ++ rest).take encodedLen).drop (encodedLen - 4) =
      littleEndian 4 (crc32c h.encodeFields).toNat := by
    rw [List.take_left' size, encode]
    exact List.drop_left' fields
  have start : (h.encode ++ rest).drop 6 = h.encodeFields.drop 6 ++
      (littleEndian 4 (crc32c h.encodeFields).toNat ++ rest) := by
    rw [encode, List.append_assoc, List.drop_append_of_le_length (by rw [fields]; decide)]
  rw [decode, if_neg (by rw [List.length_append, size]; omega), front,
    ofLittleEndian_littleEndian (by decide), if_neg (fun no => no rfl)]
  simp only [sum, body]
  rw [ofLittleEndian_littleEndian (crc32c h.encodeFields).toNat_lt, if_neg (fun no => no rfl), start,
    reads_fields h]
  rfl

theorem truncated_truncated : h.truncated.truncated = h.truncated := by
  have again (max : Nat) (s : String) : cut max (cut max s) = cut max s :=
    cut_of_fits (length_utf8_cut max s)
  simp only [truncated, again]

variable {h} in
theorem truncated_of_fit (fit : h.TextsFit) : h.truncated = h := by
  rw [truncated, cut_of_fits fit.name, cut_of_fits fit.description]

end RoundTrip

section Corruption

theorem decode_sealed {buf : List UInt8} (long : buf.length = encodedLen)
    (sealed : ofLittleEndian (buf.drop (encodedLen - 4)) ≠ (crc32c (buf.take (encodedLen - 4))).toNat) :
    ∃ e, decode buf = .error (.raised e) := by
  rw [decode, if_neg (by omega)]
  split
  next => exact ⟨_, rfl⟩
  next =>
    simp only [List.take_of_length_le long.le]
    rw [if_pos sealed]
    exact ⟨_, rfl⟩

/-- A burst of at most four bytes is always noticed, in the checksum as in the fields. -/
theorem burst_detected (h : EntityHeader) (buf : List UInt8) (same : buf.length = h.encode.length)
    (differs : buf ≠ h.encode) (start : Nat)
    (outside : ∀ i, i < start ∨ start + 4 ≤ i → buf[i]? = h.encode[i]?) :
    ∃ e, decode buf = .error (.raised e) := by
  have long : buf.length = encodedLen := by rw [same, length_encode]
  have fields := length_encodeFields h
  have sizes : 4 ≤ encodedLen := by decide
  apply decode_sealed long
  intro sealed
  apply differs
  have parts : buf.take (encodedLen - 4) ++ buf.drop (encodedLen - 4) = buf := List.take_append_drop ..
  have own : ofLittleEndian (littleEndian 4 (crc32c h.encodeFields).toNat) = (crc32c h.encodeFields).toNat :=
    ofLittleEndian_littleEndian (crc32c h.encodeFields).toNat_lt
  rw [← parts] at outside ⊢
  rw [encode] at outside ⊢
  exact crc32c_burst (by rw [List.length_take, fields]; omega) (by rw [List.length_drop]; omega)
    (length_littleEndian 4 _) sealed own outside

theorem burst_detected_magic : ∃ h : EntityHeader, ∃ e, decode (h.encode.set 0 0) = .error (.raised e) := by
  let h := new (.fromBytes []) (.fromBytes []) "" .data (.fromBytes [])
  have differs : h.encode.set 0 0 ≠ h.encode := by
    intro equal
    have first := congrArg List.head? equal
    exact absurd first (by decide)
  refine ⟨h, burst_detected h _ (List.length_set ..) differs 0 fun i apart => ?_⟩
  rw [List.getElem?_set_ne (by omega)]

end Corruption

end EntityHeader

end Gems.Catalog
